/-! What can go wrong.

A `Fault` names its cause. Some causes come with a sentence for the user: a
`Complaint`, whose wording is `Complaint.text` and nowhere else. -/
namespace GlyphRules

/-- The causes that are explained in words. -/
inductive Complaint where
  | noRoutine (name : String)
  | unresolvedReference
  | multipleInput
  | ambiguousClasses
  | classLength (input replacement : Nat)
  | useChain
  | lookupType (number : Int)
  | notOneType
  | notOneFlag
  | markTwice (mark first second : String)
  | buildSub (number : Int)
  | buildPos (number : Int)
  | noDefault
  | axisText
  | tooHard
  | noCodepointGlyph (code location : String)
  | noClass (name location : String)
  | badPattern (pattern location : String)
  | unknownSelector (shown : String)
  | unknownMetric (name : String)
  | argumentKind (shown : String)
  | noInclude (file : String)
  | defineFirst (name : String)
  | dotMismatch (dropped kept : String)
  | verbatim (text : String)
deriving DecidableEq

namespace Complaint

def text : Complaint → String
  | noRoutine name => "Can't find routine '" ++ name ++ "'"
  | unresolvedReference => "Routine reference not resolved"
  | multipleInput => "Multiple substitution only valid on input of length one, use a Chain instead"
  | ambiguousClasses =>
    "Cannot expand multiple glyph classes in a multiple substitution — creates ambiguity"
  | classLength a b => "Glyph class in input must be same length as that in replacement. " ++
      toString a ++ " != " ++ toString b
  | useChain => "Use the Chain verb for this"
  | lookupType n => "Invalid GSUB lookup type requested: " ++ toString n
  | notOneType => "For now, a routine can only contain rules of the same type"
  | notOneFlag => "For now, a routine can only contain rules of the same flags"
  | markTwice m a b => "A mark glyph " ++ m ++ " tried to be in two categories (" ++ a ++ ", " ++ b ++ ")"
  | buildSub n => "Don't know how to build a SUB type " ++ toString n ++ " lookup"
  | buildPos n => "Don't know how to build a POS type " ++ toString n ++ " lookup"
  | noDefault => "Default value could not be found"
  | axisText => "not enough arguments for format string"
  | tooHard => "Too hard :-("
  | noCodepointGlyph code location =>
    "Font does not contain glyph for U+" ++ code ++ " (at " ++ location ++ ")"
  | noClass name location =>
    "Tried to expand glyph class '@" ++ name ++ "' but @" ++ name ++ " was not defined (at " ++ location ++ ")"
  | badPattern pattern location =>
    "Couldn't parse regular expression '" ++ pattern ++ "' at " ++ location
  | unknownSelector shown => "Unknown selector type " ++ shown
  | unknownMetric name => "Unknown metric '" ++ name ++ "'"
  | argumentKind shown => "Arguments of unknown type: " ++ shown
  | noInclude file => "Could not include file " ++ file
  | defineFirst name => "Please define @" ++ name ++ " class before calling"
  | dotMismatch a b => "Mismatch in @below_dots: " ++ a ++ " has .yb suffix, " ++ b ++ " does not"
  | verbatim t => t

end Complaint

/-- The causes of failure. -/
inductive Fault where
  /-- A value of one kind stands where another kind is needed. -/
  | wrongKind
  /-- A wrong kind of value, with words. -/
  | wrongKindSaid (why : Complaint)
  /-- A part that was never given is asked for. -/
  | missingPart
  /-- A position lies outside a list. -/
  | outOfRange
  /-- A name is not in a dictionary. -/
  | notFound
  /-- A condition that the program relies on does not hold. -/
  | brokenPromise
  | badValue
  /-- A value cannot be used, with words. -/
  | refused (why : Complaint)
  /-- The request is known and not supported. -/
  | unsupported (why : Complaint)
  /-- A name stands for nothing. -/
  | undefinedName
  /-- A local name is used before it has a value. -/
  | unsetName
  /-- Rules call each other without end. -/
  | endless
  /-- The steps that were granted did not suffice. -/
  | unfinished
  | zeroDivision
  | noModule
  | noFile
  /-- A feature file asks for another one that does not exist. -/
  | noIncludedFile
  | badPattern
  /-- A text does not match its grammar. -/
  | ungrammatical
  | unreadableFeatures
  | unreadableProject
  | unreadableMarkup
  | unreadableRecord
  /-- A glyph gets two values in one lookup. -/
  | conflictingLookup
  /-- Masters do not span a variation model. -/
  | noBaseMaster
  /-- A number is too large for its field. -/
  | overflow
  | unreadableFont
  /-- An imported name is not exported. -/
  | noImport
deriving DecidableEq

def Fault.words : Fault → Option String
  | .wrongKindSaid why | .refused why | .unsupported why => some why.text
  | _ => none

end GlyphRules
