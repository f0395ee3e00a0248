/-!
# YAML faults

Why a text is no YAML document, or a document no value.
-/

namespace WireSchema.Yaml

/-- What is wrong with a document. -/
inductive Fault where
  | forbiddenCharacter
  | unexpectedCharacter
  | keyWithoutValue
  | misplacedIndicator
  | tabAsIndentation
  | badDirective
  | badAnchor
  | badTag
  | badBlockHeader
  | badEscape
  | unterminatedScalar
  | ambiguousColon
  | unexpectedToken
  | undefinedTagHandle
  | undefinedAnchor
  | cyclicAlias
  | tooDeep
  | tooManyAliases
  | duplicateKey
  | scalarNotOfTag
  | numberOutOfRange
  | notOneDocument
  | unfinished
  deriving DecidableEq, Repr

end WireSchema.Yaml
