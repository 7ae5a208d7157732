import GlyphRules.Rule.Basic

/-! Markup trees and their text.

An element has a tag, attributes in order, the text before its first child, and children, comments
among them. `Node.render` is the only place where a tree becomes text: no white space is added, an
element without content is one empty tag. -/
namespace GlyphRules.Markup

inductive Node where
  | element (tag : String) (attributes : List (String × String)) (text : Option String)
      (children : List Node)
  | comment (text : String)

namespace Node

def tag? : Node → Option String
  | element tag .. => some tag
  | comment _ => none

def get? (key : String) : Node → Option String
  | element _ attributes _ _ => Dict.get? attributes key
  | comment _ => none

def text? : Node → Option String
  | element _ _ text _ => text
  | comment text => some text

def children : Node → List Node
  | element _ _ _ children => children
  | comment _ => []

def find? (tag : String) (n : Node) : Option Node := n.children.find? (·.tag? == some tag)

def findAll (tag : String) (n : Node) : List Node := n.children.filter (·.tag? == some tag)

mutual
def size : Node → Nat
  | element _ _ _ children => 1 + sizes children
  | comment _ => 1

def sizes : List Node → Nat
  | [] => 0
  | n :: ns => size n + sizes ns
end

end Node

/-! ### Text -/

def escapeText (c : Char) : List Char :=
  match c with
  | '&' => "&amp;".toList
  | '<' => "&lt;".toList
  | '>' => "&gt;".toList
  | '\r' => "&#13;".toList
  | c => [c]

def escapeAttribute (c : Char) : List Char :=
  match c with
  | '"' => "&quot;".toList
  | '\n' => "&#10;".toList
  | '\t' => "&#9;".toList
  | c => escapeText c

def attributeText (a : String × String) : String :=
  " " ++ a.1 ++ "=\"" ++ String.ofList (a.2.toList.flatMap escapeAttribute) ++ "\""

mutual
def Node.render : Node → String
  | .comment text => "<!--" ++ text ++ "-->"
  | .element tag attributes text children =>
    let opening := "<" ++ tag ++ String.join (attributes.map attributeText)
    match text, children with
    | none, [] => opening ++ "/>"
    | text, children =>
      opening ++ ">" ++ String.ofList ((text.getD "").toList.flatMap escapeText) ++
        renderAll children ++ "</" ++ tag ++ ">"

def renderAll : List Node → String
  | [] => ""
  | n :: ns => n.render ++ renderAll ns
end

/-- Whether a text may stand in markup: no control characters but tab and line ends. -/
def isAllowed (s : String) : Bool :=
  s.toList.all fun c =>
    let n := c.toNat
    !(n < 32 && n != 9 && n != 10 && n != 13) && n != 0xFFFE && n != 0xFFFF

/-- A text that may stand in markup; a missing name may not. -/
def allowed (s : String) : Except Fault String :=
  if s == nameless then .error .wrongKind else if isAllowed s then .ok s else .error .badValue

end GlyphRules.Markup
