import FurthestMatch.Proofs.Layout
import FurthestMatch.Proofs.Markers

/-!
# Indentation

The lines of a drawing are put together first, and the indentation comes in when they become a text. The text is the
one that comes about when every node hands an indentation down to its children: its own, or that of the lines that it
puts them on, or none inside a box. As no line is broken inside, the indentation stands after every newline and
nowhere else.
-/

namespace FurthestMatch

/-! ## What an outline shows -/

def Shape.IsPlain (children : Nat) : Shape → Prop
  | .line text => '\n' ∉ text
  | .suffixed mark => '\n' ∉ mark ∧ children = 1
  | .optional _ | .look _ => children = 1
  | .sequence | .choice => True

inductive Outline.IsPlain : Outline → Prop
  | marker {path} : IsPlain (.marker path)
  | named {path framed label inner} (hl : '\n' ∉ label) (h : IsPlain inner) : IsPlain (.named path framed label inner)
  | node {path framed shape children} (hs : shape.IsPlain children.length) (h : ∀ child ∈ children, IsPlain child) :
      IsPlain (.node path framed shape children)

theorem Polarity.symbol_unbroken (polarity : Polarity) : '\n' ∉ polarity.symbol.toList := by
  cases polarity <;> decide

section
variable {config : Config}

theorem Outline.blocks_eq (children : List Outline) : blocks config children = children.map (block config) := by
  induction children with
  | nil => rfl
  | cons child children ih => rw [blocks, ih, List.map_cons]

theorem Outline.highlight_ne_nil {b : Block} (h : b ≠ []) (framed : Bool) : highlight config framed b ≠ [] := by
  cases framed with
  | false => exact h
  | true => simp [highlight, Block.frame]

theorem Shape.block_ne_nil {shape : Shape} {children : List Block} (hs : shape.IsPlain children.length)
    (h : ∀ b ∈ children, b ≠ []) : shape.block config children ≠ [] := by
  have single (hc : children.length = 1) : children.flatten ≠ [] := by
    obtain ⟨b, rfl⟩ := List.length_eq_one_iff.mp hc
    simpa using h
  cases shape with
  | line => simp [block]
  | sequence | choice => simp [block]
  | optional bare =>
    cases bare with
    | false => exact Block.append_ne_nil (Block.hang_ne_nil (single hs) _ _) _
    | true => exact Block.append_ne_nil (single hs) _
  | suffixed => exact Block.append_ne_nil (single hs.2) _
  | look => exact Block.append_ne_nil (Block.hang_ne_nil (single hs) _ _) _

theorem Outline.IsPlain.block_ne_nil {out : Outline} (h : out.IsPlain) : out.block config ≠ [] := by
  induction h with
  | marker => simp [block]
  | named => exact highlight_ne_nil (by simp [Block.frame]) _
  | node hs _ ih =>
    rw [block, blocks_eq]
    exact highlight_ne_nil (Shape.block_ne_nil (by rwa [List.length_map]) (List.forall_mem_map.mpr ih)) _

theorem Outline.unbroken_highlight (hlabel : '\n' ∉ config.highlightLabel) {b : Block} (h : b.Unbroken)
    (framed : Bool) : (highlight config framed b).Unbroken := by
  cases framed with
  | false => exact h
  | true => exact .frame hlabel b

variable (hunit : '\n' ∉ config.indentUnit)
include hunit

theorem Shape.unbroken_options : ∀ {children : List Block}, (∀ b ∈ children, b.Unbroken) →
    (options config children).Unbroken
  | [], _ => nofun
  | first :: others, h => by
    obtain ⟨hf, ho⟩ := List.forall_mem_cons.mp h
    refine List.forall_mem_append.mpr ⟨hf.indent hunit, Block.Unbroken.flatMap fun b hm => ?_⟩
    exact (ho b hm).hang (by simp [hunit]) (by simp [hunit])

theorem Shape.unbroken_block {shape : Shape} {children : List Block} (hs : shape.IsPlain children.length)
    (h : ∀ b ∈ children, b.Unbroken) : (shape.block config children).Unbroken := by
  have hflat : Block.Unbroken children.flatten := by
    intro line hm
    obtain ⟨b, hb, hl⟩ := List.mem_flatten.mp hm
    exact h b hb line hl
  cases shape with
  | line text => exact List.forall_mem_singleton.mpr hs
  | sequence => exact .between (by decide) (.flatMap fun b hm => (h b hm).indent hunit)
  | choice => exact .between (by decide) (unbroken_options hunit h)
  | optional bare =>
    cases bare with
    | false => exact (hflat.hang (by decide) (by decide)).append (by decide)
    | true => exact hflat.append (by decide)
  | suffixed => exact hflat.append hs.1
  | look polarity => exact (hflat.hang (by simp [polarity.symbol_unbroken]) (by decide)).append (by decide)

theorem Outline.IsPlain.unbroken_block (hlabel : '\n' ∉ config.highlightLabel) {out : Outline} (h : out.IsPlain) :
    (out.block config).Unbroken := by
  induction h with
  | marker => exact List.forall_mem_singleton.mpr (by decide)
  | named hl => exact unbroken_highlight hlabel (.frame hl _) _
  | node hs _ ih =>
    rw [block, blocks_eq]
    refine unbroken_highlight hlabel (Shape.unbroken_block hunit ?_ (List.forall_mem_map.mpr ih)) _
    rwa [List.length_map]

end

/-! ## Indentations handed down -/

def Shape.writtenOptions (deeper : Text) : List (Text → Text) → Text
  | [] => []
  | first :: others =>
    '\n' :: (deeper ++ first deeper) ++
      others.flatMap fun option => '\n' :: (deeper ++ "| ".toList ++ option (deeper ++ "  ".toList))

def Shape.bracketed (head : String) (inside indentation : Text) : Text :=
  head.toList ++ inside ++ '\n' :: (indentation ++ ['>'])

def Shape.written (config : Config) (children : List (Text → Text)) (indentation : Text) : Shape → Text
  | .line text => text
  | .sequence =>
    let deeper := indentation ++ config.indentUnit
    bracketed "SEQ<" (children.flatMap fun child => '\n' :: (deeper ++ child deeper)) indentation
  | .choice => bracketed "ALT<" (writtenOptions (indentation ++ config.indentUnit) children) indentation
  | .optional true => children.flatMap (· indentation) ++ ['?']
  | .optional false => '<' :: children.flatMap (· indentation) ++ ">?".toList
  | .suffixed mark => children.flatMap (· indentation) ++ mark
  | .look polarity => '(' :: polarity.symbol.toList ++ children.flatMap (· indentation) ++ [')']

def Outline.writtenIn (config : Config) (framed : Bool) (text : Text → Text) (indentation : Text) : Text :=
  if framed then Text.framed (text []) config.highlightLabel indentation else text indentation

mutual
/-- The text of an outline where an indentation stands. Inside a box there is none. -/
def Outline.written (config : Config) : Outline → Text → Text
  | .marker _ => fun _ => recursionMarker
  | .named _ framed label inner => writtenIn config framed (Text.framed (inner.written config []) label)
  | .node _ framed shape children =>
    writtenIn config framed fun indentation => shape.written config (Outline.writtenAll config children) indentation

def Outline.writtenAll (config : Config) : List Outline → List (Text → Text)
  | [] => []
  | out :: outs => out.written config :: Outline.writtenAll config outs
end

theorem Outline.writtenAll_eq (config : Config) (children : List Outline) :
    writtenAll config children = children.map (written config) := by
  induction children with
  | nil => rfl
  | cons child children ih => rw [writtenAll, ih, List.map_cons]

namespace Block

theorem toText_bracketed (indentation : Text) (head : String) (b : Block) :
    toText indentation (head.toList :: b ++ [['>']]) =
      Shape.bracketed head (b.flatMap fun l => '\n' :: (indentation ++ l)) indentation := by
  rw [List.cons_append, toText_cons, List.flatMap_append, List.flatMap_singleton, Shape.bracketed, List.append_assoc]

end Block

theorem Shape.writtenOptions_eq {config : Config} (indentation : Text) : ∀ {children : List Block},
    (∀ b ∈ children, b ≠ []) →
      writtenOptions (indentation ++ config.indentUnit) (children.map fun b indentation => b.toText indentation) =
        (options config children).flatMap fun l => '\n' :: (indentation ++ l)
  | [], _ => rfl
  | first :: others, h => by
    obtain ⟨hf, ho⟩ := List.forall_mem_cons.mp h
    rw [List.map_cons, writtenOptions, options, List.flatMap_append, Block.indent_eq_hang, Block.flatMap_hang hf,
      List.flatMap_assoc, List.flatMap_map]
    congr 1
    refine List.flatMap_congr fun b hm => ?_
    rw [Block.flatMap_hang (ho b hm)]
    simp

theorem Shape.written_eq_toText {config : Config} {shape : Shape} {children : List Block}
    (hs : shape.IsPlain children.length) (h : ∀ b ∈ children, b ≠ []) (indentation : Text) :
    shape.written config (children.map fun b indentation => b.toText indentation) indentation =
      (shape.block config children).toText indentation := by
  have single (hc : children.length = 1) : ∃ b, children = [b] ∧ b ≠ [] := by
    obtain ⟨b, rfl⟩ := List.length_eq_one_iff.mp hc
    exact ⟨b, rfl, by simpa using h⟩
  cases shape with
  | line => simp [written, block, Block.toText]
  | sequence =>
    rw [written, block, Block.toText_bracketed, List.flatMap_map, List.flatMap_assoc]
    congr 1
    refine List.flatMap_congr fun b hm => ?_
    rw [Block.indent_eq_hang, Block.flatMap_hang (h b hm)]
  | choice => rw [written, block, Block.toText_bracketed, writtenOptions_eq indentation h]
  | optional bare =>
    obtain ⟨b, rfl, hb⟩ := single hs
    cases bare with
    | false =>
      simp [written, block, Block.toText_append (Block.hang_ne_nil hb _ _), Block.toText_hang hb]
    | true => simp [written, block, Block.toText_append hb]
  | suffixed mark =>
    obtain ⟨b, rfl, hb⟩ := single hs.2
    simp [written, block, Block.toText_append hb]
  | look polarity =>
    obtain ⟨b, rfl, hb⟩ := single hs
    simp [written, block, Block.toText_append (Block.hang_ne_nil hb _ _), Block.toText_hang hb]

theorem Outline.writtenIn_eq {config : Config} {b : Block} (h : b ≠ []) (framed : Bool) {text : Text → Text}
    (ht : ∀ indentation, text indentation = b.toText indentation) (indentation : Text) :
    writtenIn config framed text indentation = (highlight config framed b).toText indentation := by
  cases framed with
  | false => exact ht indentation
  | true =>
    rw [writtenIn, if_pos rfl, ht, highlight, if_pos rfl, Block.toText_frame h]

/-- The lines of an outline make the text that comes about by handing indentations down. -/
theorem Outline.IsPlain.written_eq_toText {config : Config} {out : Outline} (h : out.IsPlain) :
    ∀ indentation, out.written config indentation = (out.block config).toText indentation := by
  induction h with
  | marker => simp [written, block, Block.toText]
  | named _ h ih =>
    refine writtenIn_eq (by simp [Block.frame]) _ fun indentation => ?_
    rw [Block.toText_frame h.block_ne_nil, ih]
  | @node _ framed shape children hs h ih =>
    rw [← List.length_map (block config)] at hs
    have hne : ∀ b ∈ children.map (block config), b ≠ [] :=
      List.forall_mem_map.mpr fun child hc => (h child hc).block_ne_nil
    have hw : writtenAll config children =
        (children.map (block config)).map fun b indentation => b.toText indentation := by
      rw [writtenAll_eq, List.map_map]
      exact List.map_congr_left fun child hc => funext (ih child hc)
    rw [block, blocks_eq]
    refine writtenIn_eq (Shape.block_ne_nil hs hne) _ fun indentation => ?_
    rw [hw]
    exact Shape.written_eq_toText hs hne indentation

/-! ## Drawings of plain grammars -/

theorem quoteLiteral_unbroken (text : Text) : '\n' ∉ quoteLiteral text := by
  have hescaped : '\n' ∉ text.flatMap
      (fun c => if c = '"' then ['\\', '"'] else if c = '\n' then ['\\', 'n'] else [c]) := by
    intro h
    obtain ⟨c, -, hc⟩ := List.mem_flatMap.mp h
    by_cases hq : c = '"'
    · simp [hq] at hc
    · by_cases hn : c = '\n'
      · simp [hn] at hc
      · rw [if_neg hq, if_neg hn, List.mem_singleton] at hc
        exact hn hc.symm
  simp [quoteLiteral, hescaped]

theorem countSuffix_unbroken (least : Nat) (most : Option Nat) : '\n' ∉ countSuffix least most := by
  have digits := Text.unbroken_digits
  unfold countSuffix
  split
  · decide
  · decide
  · decide
  · simp [digits]
  · split <;> simp [digits]

namespace Rulebook

variable {b : Rulebook} {root : NodeId}

/-- No label of a grammar has a newline, and no pattern is shown as a text with one. Its literals may have any. -/
structure IsPlain (b : Rulebook) (root : NodeId) : Prop where
  label : ∀ id child label, b.Inside root id → b.node id = .named child label → '\n' ∉ label.toList
  pattern : ∀ id leaf, b.Inside root id → b.node id = .pattern leaf → '\n' ∉ (leaf.shownAs.getD leaf.source).toList

theorem IsPlain.shape (hp : b.IsPlain root) {id : NodeId} (hi : b.Inside root id) {path : Path} {shape : Shape}
    {children : List NodeId} (h : (b.shape id path).result = .ok (shape, children)) :
    shape.IsPlain children.length := by
  cases hn : b.node id with
  | literal => simp only [Rulebook.shape, hn] at h; cases h; exact quoteLiteral_unbroken _
  | pattern leaf =>
    have hl := hp.pattern id leaf hi hn
    simp only [Rulebook.shape, hn] at h
    cases h
    cases hs : leaf.shownAs with
    | none => simpa [Shape.IsPlain, hs] using hl
    | some => simpa [Shape.IsPlain, hs] using hl
  | always | never => simp only [Rulebook.shape, hn] at h; cases h; simp [Shape.IsPlain]
  | sequence => simp only [Rulebook.shape, hn] at h; cases h; exact trivial
  | choice options =>
    simp only [Rulebook.shape, hn] at h
    obtain ⟨option?, -, h⟩ := Walk.result_bind_eq_ok.mp h
    cases option? with
    | none => cases h; exact trivial
    | some option =>
      obtain ⟨bare, -, h⟩ := Walk.result_bind_eq_ok.mp h
      cases h
      rfl
  | times => simp only [Rulebook.shape, hn] at h; cases h; exact ⟨countSuffix_unbroken _ _, rfl⟩
  | map | chain => simp only [Rulebook.shape, hn] at h; cases h; exact ⟨by decide, rfl⟩
  | look => simp only [Rulebook.shape, hn] at h; cases h; rfl
  | deferred | named => simp only [Rulebook.shape, hn] at h; cases h; exact List.not_mem_nil

theorem IsPlain.outline (hp : b.IsPlain root) : ∀ {fuel : Nat} {spot : Option Spot} {id : NodeId} {path : Path}
    {out : Outline}, (b.outline fuel spot id path).result = .ok out → b.Inside root id → out.IsPlain
  | 0, _, _, _, _, h, _ => nomatch h
  | fuel + 1, spot, id, path, out, h, hi => by
    cases hn : b.node id with
    | named child label =>
      simp only [Rulebook.outline, hn] at h
      obtain ⟨inner, ho, h⟩ := Walk.result_bind_eq_ok.mp h
      cases h
      exact .named (hp.label id child label hi hn) (hp.outline ho (hi.inner (inner?_named hn)))
    | deferred target =>
      simp only [Rulebook.outline, hn] at h
      obtain ⟨_, -, ho⟩ := Walk.result_bind_eq_ok.mp h
      exact hp.outline ho (hi.inner (inner?_deferred hn))
    | _ =>
      have hnone : b.inner? id = none := by rw [inner?, hn]
      cases drawn_of_outline h with
      | deferred hnext | named hnext => cases hnone.symm.trans hnext
      | marker => exact .marker
      | node _ _ _ hs ho =>
        obtain ⟨hl, hparts⟩ := part_of_outlineAll ho
        refine .node (hl ▸ hp.shape hi hs) fun part hm => ?_
        obtain ⟨i, hi', rfl⟩ := List.getElem_of_mem hm
        have hchild := List.getElem?_eq_getElem (hl ▸ hi')
        have hin := hi.child (List.mem_of_getElem? (child_of_drawn hs hchild))
        exact hp.outline (hparts i _ _ hchild (List.getElem?_eq_getElem hi')) hin

end Rulebook

open Rulebook

/-- When no label or shown pattern of a grammar and no text of the configuration has a newline, the indentation of a
drawing is what stands after each newline, and nothing else depends on it. The drawing is then the one that comes about
by handing indentations down. -/
theorem indentation_follows_newlines {b : Rulebook} {config : Config} {root : NodeId} (hp : b.IsPlain root)
    (hunit : '\n' ∉ config.indentUnit) (hlabel : '\n' ∉ config.highlightLabel) (indentation : Text)
    (highlight : Option Highlight) :
    (b.render config root indentation false highlight).result =
      (b.render config root [] false highlight).result.map (Text.indented indentation) ∧
    (b.render config root indentation true highlight).result =
      (b.render config root [] false highlight).result.map
        (fun text => '\n' :: (indentation ++ Text.indented indentation text)) ∧
    (b.render config root indentation false highlight).result =
      (b.sketch root highlight).result.map (fun out => out.written config indentation) ∧
    ('\n' ∉ indentation → ∀ text text', (b.render config root [] false highlight).result = .ok text →
      (b.render config root indentation false highlight).result = .ok text' →
        ∃ first others, text.lines = first :: others ∧ text'.lines = first :: others.map (indentation ++ ·)) := by
  have hindent (out : Outline) (h : (b.sketch root highlight).result = .ok out) :
      Text.indented indentation ((out.block config).toText []) = (out.block config).toText indentation ∧
        out.written config indentation = (out.block config).toText indentation := by
    obtain ⟨_, -, ho⟩ := Walk.result_bind_eq_ok.mp h
    have hout := hp.outline ho .root
    exact ⟨Block.indented_toText (hout.unbroken_block hunit hlabel) indentation, hout.written_eq_toText indentation⟩
  simp only [result_render]
  cases hs : (b.sketch root highlight).result with
  | error => exact ⟨rfl, rfl, rfl, nofun⟩
  | ok out =>
    obtain ⟨hi, hw⟩ := hindent out hs
    refine ⟨congrArg Except.ok hi.symm, ?_, congrArg Except.ok hw.symm, ?_⟩
    · simp [Except.map, hi]
    · rintro hbreak text text' ⟨⟩ ⟨⟩
      obtain ⟨first, others, hl⟩ := Text.exists_lines_eq ((out.block config).toText [])
      refine ⟨first, others, hl, ?_⟩
      have := Text.lines_indented hbreak ((out.block config).toText [])
      rwa [hi, hl] at this

def boxes : Rulebook where
  graph := { nodes := #[.literal "a\nb", .named 0 "pair", .choice [1, 0], .sequence [2, 1]] }

theorem isPlain_boxes : boxes.IsPlain 3 where
  label id _ _ _ hn := match id, hn with
    | 1, hn => by cases hn; decide
    | 0, hn | 2, hn | 3, hn | _ + 4, hn => by cases hn
  pattern id _ _ hn := match id, hn with
    | 0, hn | 1, hn | 2, hn | 3, hn | _ + 4, hn => by cases hn

theorem indented_boxes : ∃ text, (boxes.render {} 3 [] false (some (.node 2))).result = .ok text ∧
    (boxes.render {} 3 "..".toList false (some (.node 2))).result = .ok (Text.indented "..".toList text) ∧
      ∃ first others, text.lines = first :: others ∧
        (Text.indented "..".toList text).lines = first :: others.map ("..".toList ++ ·) := by
  obtain ⟨hindent, -, -, hlines⟩ := indentation_follows_newlines isPlain_boxes (by decide : '\n' ∉ ({} : Config).indentUnit)
    (by decide)
    "..".toList (some (.node 2))
  obtain ⟨text, ht⟩ : ∃ text, (boxes.render {} 3 [] false (some (.node 2))).result = .ok text := ⟨_, rfl⟩
  rw [ht] at hindent
  exact ⟨text, ht, hindent, hlines (by decide) text _ ht hindent⟩

end FurthestMatch
