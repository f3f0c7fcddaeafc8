import FurthestMatch.Grammar.Rulebook

/-!
# Ready leaves

Patterns for numbers, blanks and quoted texts. Each is one node, planted before all others, and is drawn under a
name of its own.
-/

namespace FurthestMatch

inductive Leaf where
  | number
  | integer
  | bigInteger
  | natural
  | exponential
  | unit
  | byte
  | whitespace
  | whitespaceOpt
  | whitespaceInline
  | whitespaceInlineOpt
  | whitespaceMultiline
  | doubleQuoted
  | singleQuoted
  | backtickQuoted
  | anyChar
  | anyCharDotall
deriving DecidableEq, Repr

namespace Leaf

def all : List Leaf :=
  [.number, .integer, .bigInteger, .natural, .exponential, .unit, .byte, .whitespace, .whitespaceOpt,
    .whitespaceInline, .whitespaceInlineOpt, .whitespaceMultiline, .doubleQuoted, .singleQuoted, .backtickQuoted,
    .anyChar, .anyCharDotall]

def name : Leaf → String
  | .number => "number"
  | .integer => "integer"
  | .bigInteger => "big_integer"
  | .natural => "natural"
  | .exponential => "exponential"
  | .unit => "unit"
  | .byte => "byte"
  | .whitespace => "whitespace"
  | .whitespaceOpt => "whitespace_opt"
  | .whitespaceInline => "whitespace_inline"
  | .whitespaceInlineOpt => "whitespace_inline_opt"
  | .whitespaceMultiline => "whitespace_multiline"
  | .doubleQuoted => "double_quoted_string"
  | .singleQuoted => "single_quoted_string"
  | .backtickQuoted => "backtick_quoted_string"
  | .anyChar => "any_char"
  | .anyCharDotall => "any_char_dotall"

def source : Leaf → String
  | .number => r"[-\+]?(?:[0-9]*\.)?[0-9]+(?!\.)"
  | .integer | .bigInteger => r"[\-\+]?[0-9]+(?!\.[0-9])"
  | .natural => r"[0-9]+"
  | .exponential => r"[-\+]?(?:[0-9]*\.)?[0-9]+(?:[eE][\+\-]?[0-9]+)?(?!\.)"
  | .unit => r"\+?(?:0(?:\.[0-9]+)?|1(?:\.0+)?)(?![.0-9])"
  | .byte => r"0*(?:25[0-5]|2[0-4][0-9]|1?[0-9]?[0-9])(?![0-9]|\.)"
  | .whitespace => r"\s+"
  | .whitespaceOpt => r"\s*"
  | .whitespaceInline => r"[^\S\n]+"
  | .whitespaceInlineOpt => r"[^\S\n]*"
  | .whitespaceMultiline => r"\s*?\n\s*"
  | .doubleQuoted => "\"([^\"\\\\]*(?:\\\\.[^\"\\\\]*)*)\""
  | .singleQuoted => r"'([^'\\]*(?:\\.[^'\\]*)*)'"
  | .backtickQuoted => "\x60([^\x60\\\\]*(?:\\\\.[^\x60\\\\]*)*)\x60"
  | .anyChar => "."
  | .anyCharDotall => "(?s)."

def capture : Leaf → Capture
  | .number | .exponential | .unit => .convert .float
  | .integer | .natural | .byte => .convert .integer
  | .bigInteger => .convert .bigInteger
  | .doubleQuoted | .singleQuoted | .backtickQuoted => .group 1
  | _ => .whole

def shownAs : Leaf → String
  | .anyChar | .anyCharDotall => "."
  | leaf => "@" ++ leaf.name

def node (leaf : Leaf) : Node :=
  match Pattern.ofSource leaf.source leaf.capture with
  | .ok pattern => .pattern { pattern with shownAs := some leaf.shownAs }
  | .error _ => .never

def id (leaf : Leaf) : NodeId :=
  all.idxOf leaf

def recipe (leaf : Leaf) : Recipe :=
  .node leaf.id

end Leaf

def Graph.leaves : Graph where
  nodes := (Leaf.all.map Leaf.node).toArray

theorem Graph.nodes_leaves (leaf : Leaf) : leaves.nodes[leaf.id]? = some leaf.node := by
  have hid : Leaf.all[leaf.id]? = some leaf := by cases leaf <;> rfl
  simp [leaves, hid]

end FurthestMatch
