/-
What can go wrong between a source and a mapping.
-/
import PersistenceMapping.Origin
import PersistenceMapping.Schema.Bind
import PersistenceMapping.Tree.Build

namespace PersistenceMapping

/-- Why a document cannot be transformed. -/
inductive TransformFault where
  | source (error : TokenError)
  | build (error : BuildError)
  /-- The source ends before an element starts. -/
  | noRoot
  /-- A document that has been generated is not in the hierarchical dialect. -/
  | notHierarchical
  deriving DecidableEq, Repr

/-- The text of a fault. -/
def TransformFault.message : TransformFault → String
  | source error => error.message
  | build error => error.message
  | noRoot => "document has no root element"
  | notHierarchical => "generated document is not a hibernate-mapping document"

/-- The step at which a converter was given up. -/
inductive ConverterStep where
  | locate
  | instantiate
  deriving DecidableEq, Repr

/-- The name of a step in messages. -/
def ConverterStep.label : ConverterStep → String
  | locate => "locate"
  | instantiate => "instantiate"

/-- What can go wrong with a mapping document. -/
inductive MappingError where
  | unsupportedVersion (version : String) (origin : Origin)
  | transform (origin : Origin) (fault : TransformFault)
  | unmarshal (origin : Origin) (fault : BindFault)
  | configuration (fault : SchemaFault)
  | duplicateClass (name : String)
  | converter (step : ConverterStep) (className reason : String)
  | accessType (value context : String)
  | tree (error : TreeError)
  deriving DecidableEq, Repr

/-- The text of an error. -/
def MappingError.message : MappingError → String
  | unsupportedVersion version origin =>
    "unsupported orm.xml version " ++ version ++ " in " ++ origin.description
  | transform origin fault =>
    "an error occurred transforming mapping document from " ++ origin.description ++ ": "
      ++ fault.message
  | unmarshal origin fault =>
    "unable to bind hbm.xml document from " ++ origin.description ++ ": " ++ fault.message
  | configuration fault => "unable to build hbm.xml binding context: " ++ fault.message
  | duplicateClass name => "duplicate XML entry for " ++ name
  | converter step className reason =>
    "unable to " ++ step.label ++ " specified attribute converter implementation class: "
      ++ className ++ " (" ++ reason ++ ")"
  | accessType value context =>
    "invalid access type " ++ value ++ " at " ++ context ++ " (check your xml configuration)"
  | tree error => error.message

end PersistenceMapping
