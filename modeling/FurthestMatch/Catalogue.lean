import FurthestMatch.Catalogue.Bundled

/-!
# Catalogues

A catalogue lists grammars under names, in increasing order, each name once. A grammar that could not be built is
listed all the same, and the error comes up when the grammar is asked for.
-/

namespace FurthestMatch

structure CatalogueEntry where
  name : String
  description : String := ""
  grammar : Except BuildError NodeId

structure Catalogue where
  entries : List CatalogueEntry := []

inductive LookupError where
  | unknown (name : String)
  | build (error : BuildError)
deriving DecidableEq, Repr

def LookupError.message : LookupError → String
  | .unknown name => s!"Grammar '{name}' not found"
  | .build error => error.message

namespace Catalogue

/-- Entries with one more; an entry that had the name is replaced. -/
def insert (entry : CatalogueEntry) : List CatalogueEntry → List CatalogueEntry
  | [] => [entry]
  | e :: rest =>
    if entry.name < e.name then entry :: e :: rest
    else if entry.name = e.name then entry :: rest
    else e :: insert entry rest

def register (c : Catalogue) (entry : CatalogueEntry) : Catalogue :=
  ⟨insert entry c.entries⟩

def entry? (c : Catalogue) (name : String) : Option CatalogueEntry :=
  c.entries.find? (·.name == name)

def names (c : Catalogue) : List String :=
  c.entries.map (·.name)

def grammar (c : Catalogue) (name : String) : Except LookupError NodeId :=
  match c.entry? name with
  | none => .error (.unknown name)
  | some entry => entry.grammar.mapError .build

def bundled : Catalogue :=
  ({} : Catalogue)
    |>.register
      { name := "json"
        description := "JSON values: objects, arrays, strings, numbers, true, false, null"
        grammar := .ok Bundled.json }
    |>.register
      { name := "math"
        description := "Arithmetic expressions with + - * / ^ and parentheses, evaluated"
        grammar := .ok Bundled.math }

end Catalogue

end FurthestMatch
