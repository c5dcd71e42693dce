import StreamQuery.Iri

/-!
# Vocabulary

The classes, properties and resources that queries, windows and templates are described with in a
graph.
-/

namespace StreamQuery.Vocabulary

/-! ### Streams and windows -/

def logicalWindow : Iri := ⟨"http://w3id.org/rsp/spin#LogicalWindow", by decide +kernel⟩
def logicalPastWindow : Iri := ⟨"http://w3id.org/rsp/spin#LogicalPastWindow", by decide +kernel⟩
def physicalWindow : Iri := ⟨"http://w3id.org/rsp/spin#PhysicalWindow", by decide +kernel⟩
def istream : Iri := ⟨"http://w3id.org/rsp/spin#Istream", by decide +kernel⟩
def dstream : Iri := ⟨"http://w3id.org/rsp/spin#Dstream", by decide +kernel⟩
def rstream : Iri := ⟨"http://w3id.org/rsp/spin#Rstream", by decide +kernel⟩
def fromNamedWindow : Iri := ⟨"http://w3id.org/rsp/spin#fromNamedWindow", by decide +kernel⟩
def windowUri : Iri := ⟨"http://w3id.org/rsp/spin#windowUri", by decide +kernel⟩
def streamUri : Iri := ⟨"http://w3id.org/rsp/spin#streamUri", by decide +kernel⟩
def logicalRange : Iri := ⟨"http://w3id.org/rsp/spin#logicalRange", by decide +kernel⟩
def logicalStep : Iri := ⟨"http://w3id.org/rsp/spin#logicalStep", by decide +kernel⟩
def pastFrom : Iri := ⟨"http://w3id.org/rsp/spin#from", by decide +kernel⟩
def pastTo : Iri := ⟨"http://w3id.org/rsp/spin#to", by decide +kernel⟩
def physicalRange : Iri := ⟨"http://w3id.org/rsp/spin#physicalRange", by decide +kernel⟩
def physicalStep : Iri := ⟨"http://w3id.org/rsp/spin#physicalStep", by decide +kernel⟩
def hasOutputStream : Iri := ⟨"http://w3id.org/rsp/spin#hasOutputStream", by decide +kernel⟩
def hasOutputStreamOperator : Iri :=
  ⟨"http://w3id.org/rsp/spin#hasOutputStreamOperator", by decide +kernel⟩
def mentions : Iri := ⟨"http://w3id.org/rsp/spin#variable", by decide +kernel⟩

/-! ### Queries -/

def selectQuery : Iri := ⟨"http://spinrdf.org/sp#Select", by decide +kernel⟩
def constructQuery : Iri := ⟨"http://spinrdf.org/sp#Construct", by decide +kernel⟩
def askQuery : Iri := ⟨"http://spinrdf.org/sp#Ask", by decide +kernel⟩
def describeQuery : Iri := ⟨"http://spinrdf.org/sp#Describe", by decide +kernel⟩
def variableClass : Iri := ⟨"http://spinrdf.org/sp#Variable", by decide +kernel⟩
def queryText : Iri := ⟨"http://spinrdf.org/sp#text", by decide +kernel⟩
def wherePattern : Iri := ⟨"http://spinrdf.org/sp#where", by decide +kernel⟩
def resultVariables : Iri := ⟨"http://spinrdf.org/sp#resultVariables", by decide +kernel⟩
def varName : Iri := ⟨"http://spinrdf.org/sp#varName", by decide +kernel⟩

/-! ### Templates -/

def templateClass : Iri := ⟨"http://spinrdf.org/spin#Template", by decide +kernel⟩
def selectTemplate : Iri := ⟨"http://spinrdf.org/spin#SelectTemplate", by decide +kernel⟩
def constructTemplate : Iri := ⟨"http://spinrdf.org/spin#ConstructTemplate", by decide +kernel⟩
def askTemplate : Iri := ⟨"http://spinrdf.org/spin#AskTemplate", by decide +kernel⟩
def describeTemplate : Iri := ⟨"http://spinrdf.org/spin#DescribeTemplate", by decide +kernel⟩
def templateBody : Iri := ⟨"http://spinrdf.org/spin#body", by decide +kernel⟩
def templateConstraint : Iri := ⟨"http://spinrdf.org/spin#constraint", by decide +kernel⟩

/-! ### Template arguments -/

def argumentClass : Iri := ⟨"http://spinrdf.org/spl#Argument", by decide +kernel⟩
def argumentPredicate : Iri := ⟨"http://spinrdf.org/spl#predicate", by decide +kernel⟩
def argumentValueType : Iri := ⟨"http://spinrdf.org/spl#valueType", by decide +kernel⟩
def argumentDefault : Iri := ⟨"http://spinrdf.org/spl#defaultValue", by decide +kernel⟩
def argumentOptional : Iri := ⟨"http://spinrdf.org/spl#optional", by decide +kernel⟩

/-- The namespace of the properties that stand for template arguments. -/
def argumentNamespace : String := "http://spinrdf.org/arg#"

/-! ### General vocabularies -/

def rdfType : Iri := ⟨"http://www.w3.org/1999/02/22-rdf-syntax-ns#type", by decide +kernel⟩
def rdfLangString : Iri :=
  ⟨"http://www.w3.org/1999/02/22-rdf-syntax-ns#langString", by decide +kernel⟩
def rdfFirst : Iri := ⟨"http://www.w3.org/1999/02/22-rdf-syntax-ns#first", by decide +kernel⟩
def rdfRest : Iri := ⟨"http://www.w3.org/1999/02/22-rdf-syntax-ns#rest", by decide +kernel⟩
def rdfNil : Iri := ⟨"http://www.w3.org/1999/02/22-rdf-syntax-ns#nil", by decide +kernel⟩
def rdfsResource : Iri := ⟨"http://www.w3.org/2000/01/rdf-schema#Resource", by decide +kernel⟩
def rdfsLiteral : Iri := ⟨"http://www.w3.org/2000/01/rdf-schema#Literal", by decide +kernel⟩
def rdfsLabel : Iri := ⟨"http://www.w3.org/2000/01/rdf-schema#label", by decide +kernel⟩
def rdfsComment : Iri := ⟨"http://www.w3.org/2000/01/rdf-schema#comment", by decide +kernel⟩
def rdfsSubClassOf : Iri :=
  ⟨"http://www.w3.org/2000/01/rdf-schema#subClassOf", by decide +kernel⟩
def rdfsSubPropertyOf : Iri :=
  ⟨"http://www.w3.org/2000/01/rdf-schema#subPropertyOf", by decide +kernel⟩

/-! ### Datatypes that literals are checked against -/

def xsdString : Iri := ⟨"http://www.w3.org/2001/XMLSchema#string", by decide +kernel⟩
def xsdBoolean : Iri := ⟨"http://www.w3.org/2001/XMLSchema#boolean", by decide +kernel⟩
def xsdInteger : Iri := ⟨"http://www.w3.org/2001/XMLSchema#integer", by decide +kernel⟩
def xsdDecimal : Iri := ⟨"http://www.w3.org/2001/XMLSchema#decimal", by decide +kernel⟩
def xsdDouble : Iri := ⟨"http://www.w3.org/2001/XMLSchema#double", by decide +kernel⟩
def xsdFloat : Iri := ⟨"http://www.w3.org/2001/XMLSchema#float", by decide +kernel⟩
def xsdDuration : Iri := ⟨"http://www.w3.org/2001/XMLSchema#duration", by decide +kernel⟩
def xsdDateTime : Iri := ⟨"http://www.w3.org/2001/XMLSchema#dateTime", by decide +kernel⟩
def xsdDate : Iri := ⟨"http://www.w3.org/2001/XMLSchema#date", by decide +kernel⟩
def xsdAnyUri : Iri := ⟨"http://www.w3.org/2001/XMLSchema#anyURI", by decide +kernel⟩

end StreamQuery.Vocabulary
