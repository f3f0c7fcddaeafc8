import FurthestMatch.Config
import FurthestMatch.Drawing.Frame
import FurthestMatch.Grammar.Occurrence

/-!
# Outlines

What a drawing shows, before it is laid out: the occurrences that it comes to, each with what is drawn inside it.
An outline says which occurrences are framed; the lines follow from it and from the configuration.
-/

namespace FurthestMatch

/-- Stands for a rule that is drawn further out. -/
def recursionMarker : Text :=
  "<...>".toList

inductive Shape where
  | line (text : Text)
  | sequence
  | choice
  /-- An option or no characters, `bare` when it stands without brackets. -/
  | optional (bare : Bool)
  | suffixed (mark : Text)
  | look (polarity : Polarity)
deriving DecidableEq, Repr

inductive Outline where
  /-- The mark of a rule that is drawn further out. -/
  | marker (path : Path)
  | named (path : Path) (framed : Bool) (label : Text) (inner : Outline)
  | node (path : Path) (framed : Bool) (shape : Shape) (children : List Outline)

namespace Shape

variable (config : Config)

def options : List Block → Block
  | [] => []
  | first :: others =>
    first.indent config.indentUnit ++
      others.flatMap (Block.hang (config.indentUnit ++ "| ".toList) (config.indentUnit ++ "  ".toList))

def block (children : List Block) : Shape → Block
  | .line text => [text]
  | .sequence => "SEQ<".toList :: children.flatMap (Block.indent config.indentUnit) ++ [['>']]
  | .choice => "ALT<".toList :: options config children ++ [['>']]
  | .optional true => Block.append ['?'] children.flatten
  | .optional false => Block.append ">?".toList (Block.hang ['<'] [] children.flatten)
  | .suffixed mark => Block.append mark children.flatten
  | .look polarity => Block.append [')'] (Block.hang ('(' :: polarity.symbol.toList) [] children.flatten)

end Shape

namespace Outline

def highlight (config : Config) (framed : Bool) (b : Block) : Block :=
  if framed then b.frame config.highlightLabel else b

mutual
def block (config : Config) : Outline → Block
  | .marker _ => [recursionMarker]
  | .named _ framed label inner => highlight config framed ((inner.block config).frame label)
  | .node _ framed shape children => highlight config framed (shape.block config (blocks config children))

def blocks (config : Config) : List Outline → List Block
  | [] => []
  | o :: os => o.block config :: blocks config os
end

mutual
/-- The occurrences with a highlight frame around them, from top to bottom. -/
def framed : Outline → List Path
  | .marker _ => []
  | .named path framed _ inner => (if framed then [path] else []) ++ inner.framed
  | .node path framed _ children => (if framed then [path] else []) ++ framedAll children

def framedAll : List Outline → List Path
  | [] => []
  | o :: os => o.framed ++ framedAll os
end

end Outline

end FurthestMatch
