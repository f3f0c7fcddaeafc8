import FurthestMatch.Proofs.Drawable
import FurthestMatch.Proofs.Leaves
import FurthestMatch.Proofs.Places

/-!
# Values that keep what was read

Where no node makes up a value of its own, but at most joins those of its children, the pieces of a value in a row are
the text that was read for it. What a look ahead has read is no part of it, and neither is what options and rounds have
read that failed.
-/

namespace FurthestMatch

/-! ## Joined values -/

namespace Value

def JoinsTo (v : Value) (t : Text) : Prop :=
  v.join = .str (String.ofList t)

variable {v : Value} {t : Text}

theorem joinsTo_str (s : String) : (str s).JoinsTo s.toList :=
  congrArg str String.ofList_toList.symm

theorem joinsTo_list (items : List Value) : (list items).JoinsTo (join.joinItems items) := rfl

theorem JoinsTo.joinItem_eq (h : v.JoinsTo t) : join.joinItem v = t := by
  cases v with
  | list items => exact String.ofList_injective (str.inj h)
  | str s =>
    have hs : s = String.ofList t := str.inj h
    rw [hs, join.joinItem, String.toList_ofList]
  | _ => cases h

theorem JoinsTo.join (h : v.JoinsTo t) : v.join.JoinsTo t := by
  rw [JoinsTo, h]
  rfl

theorem joinItems_append (vs ws : List Value) : join.joinItems (vs ++ ws) = join.joinItems vs ++ join.joinItems ws := by
  induction vs with
  | nil => rfl
  | cons v vs ih => rw [List.cons_append, join.joinItems, ih, join.joinItems, List.append_assoc]

theorem joinItems_reverse_cons (vs : List Value) (h : v.JoinsTo t) :
    join.joinItems (v :: vs).reverse = join.joinItems vs.reverse ++ t := by
  rw [List.reverse_cons, joinItems_append, join.joinItems, h.joinItem_eq, join.joinItems, List.append_nil]

end Value

/-! ## What is read between two places -/

namespace Cursor

variable {text passed passed' : Text} {c d e : Cursor}

/-- Reading the text leads from the first place to the second. Nothing can be read at a place without a text as well. -/
def Reads (c : Cursor) (passed : Text) (d : Cursor) : Prop :=
  passed = [] ∧ d = c ∨ ∃ rest, c.rest = some (passed ++ rest) ∧ d = c.advance passed rest

theorem Reads.refl (c : Cursor) : c.Reads [] c :=
  .inl ⟨rfl, rfl⟩

theorem Reads.trans (h : c.Reads passed d) (h' : d.Reads passed' e) : c.Reads (passed ++ passed') e := by
  rcases h with ⟨rfl, rfl⟩ | ⟨rest, hc, rfl⟩
  · exact h'
  · rcases h' with ⟨rfl, rfl⟩ | ⟨rest', hd, rfl⟩
    · exact .inr ⟨rest, by rw [List.append_nil, hc], by rw [List.append_nil]⟩
    · cases hd
      refine .inr ⟨rest', by rw [hc, List.append_assoc], ?_⟩
      simp only [advance, Text.size_append, Nat.add_assoc]

theorem Reads.eq_slice {position : Nat} (h : (ofOffset text position).Reads passed d) (hp : text.IsBoundary position) :
    ∃ before after, text = before ++ passed ++ after ∧ Text.size before = position ∧
      Text.size (before ++ passed) = d.offset := by
  obtain ⟨before, after, rfl, rfl⟩ := hp
  rcases h with ⟨rfl, rfl⟩ | ⟨rest, hr, rfl⟩
  · exact ⟨before, after, by rw [List.append_nil], rfl, by rw [List.append_nil]; rfl⟩
  · rw [ofOffset, Text.splitAt_append] at hr
    cases hr
    exact ⟨before, rest, (List.append_assoc ..).symm, rfl, by rw [Text.size_append]; rfl⟩

theorem rest_ofOffset_eq_none {position : Nat} (hp : ¬text.IsBoundary position) :
    (ofOffset text position).rest = none := by
  cases hs : Text.splitAt text position with
  | none => rw [ofOffset, hs]; rfl
  | some parts =>
    obtain ⟨ht, hb⟩ := Text.splitAt_eq_some hs
    exact absurd ⟨_, _, ht, hb⟩ hp

theorem Reads.eq_nil (h : c.Reads passed d) (hc : c.rest = none) : passed = [] ∧ d = c := by
  rcases h with h | ⟨_, hr, -⟩
  · exact h
  · cases hc.symm.trans hr

def Faces (text : Text) (c : Cursor) : Prop :=
  ∀ ahead, c.rest = some ahead → ahead <:+ text

theorem Reaches.faces (h : c.Reaches d) (hc : c.Faces text) : d.Faces text := by
  rcases h with rfl | ⟨passed, rest, hr, rfl⟩
  · exact hc
  · rintro _ ⟨⟩
    exact (List.suffix_append passed rest).trans (hc _ hr)

theorem faces_ofOffset (text : Text) (offset : Nat) : (ofOffset text offset).Faces text := by
  intro ahead h
  obtain ⟨⟨before, _⟩, hs, rfl⟩ := Option.map_eq_some_iff.mp h
  exact ⟨before, (Text.splitAt_eq_some hs).1.symm⟩

end Cursor

/-! ## Nodes that keep what they read -/

/-- The value of a node is the text that it reads, or it is made of the values of its children, as they are or joined. A
pattern yields its whole match, and in no end of the text does the match start later than at once. -/
def Rulebook.Keeps (b : Rulebook) (text : Text) (id : NodeId) : Prop :=
  match b.node id with
  | .pattern leaf => leaf.capture = .whole ∧
      ∀ ahead found, ahead <:+ text → leaf.regex.search ahead = some found → found.skipped = []
  | .map _ mapper => b.graph.mapper mapper = Value.join
  | .chain .. => False
  | _ => True

open Rulebook

def Task.joined : Task → Text
  | .node _ | .options .. => []
  | .items _ _ values _ | .rounds _ _ _ _ values _ => Value.join.joinItems values.reverse

section
variable {text : Text} {b : Rulebook} {id : NodeId} {value : Value}

theorem joinsTo_of_reader {read : Text → Option (Value × Text × Text)} (hk : b.Keeps text id)
    (hn : (b.node id).reader? = some read) {ahead passed rest : Text} (ha : ahead <:+ text)
    (h : read ahead = some (value, passed, rest)) : value.JoinsTo passed := by
  rw [Keeps] at hk
  cases hb : b.node id with
  | literal t =>
    rw [hb] at hn
    cases hn
    obtain ⟨_, -, he⟩ := Option.map_eq_some_iff.mp h
    cases he
    exact Value.joinsTo_str t
  | pattern leaf =>
    rw [hb] at hn hk
    cases hn
    obtain ⟨found, hf, he⟩ := Option.map_eq_some_iff.mp h
    cases he
    rw [hk.2 ahead found ha hf, Pattern.extract, hk.1]
    rfl
  | _ => rw [hb] at hn; cases hn

theorem joinsTo_of_endRounds {least : Nat} {start cursor : Cursor} {values : List Value} {best : Option Furthest}
    (h : (Outcome.endRounds least start values cursor best).value = some value) :
    (Outcome.endRounds least start values cursor best).cursor = cursor ∧
      value.JoinsTo (Value.join.joinItems values.reverse) := by
  unfold Outcome.endRounds at h ⊢
  split at h
  · cases h
  · rename_i hl
    cases h
    rw [if_neg hl]
    exact ⟨rfl, Value.joinsTo_list _⟩

theorem joinsTo_of_ofLook {polarity : Polarity} {cursor : Cursor} {o : Outcome}
    (h : (Outcome.ofLook polarity cursor o).value = some value) : value.JoinsTo [] := by
  unfold Outcome.ofLook at h
  dsimp only at h
  split at h
  · cases h
    exact Value.joinsTo_str ""
  · cases h

end

/-- The value of a match joins to what was read for it. For the rest of a sequence or repetition, what was read before is
kept in front. -/
theorem Course.joinsTo {text : Text} {b : Rulebook} {root : NodeId} {task : Task} {path : Path} {cursor : Cursor}
    {o : Outcome} {leaves : List Furthest} (h : Course text b task path cursor o leaves) :
    (∀ id, b.Inside root id → b.Keeps text id) → (∀ id ∈ task.ids, b.Inside root id) → cursor.Faces text →
      ∀ {value : Value}, o.value = some value →
        ∃ passed, cursor.Reads passed o.cursor ∧ value.JoinsTo (task.joined ++ passed) := by
  -- on the course, where a task that has been begun carries the text of the values it holds already
  induction h with
  | hit hn hc hr =>
    rintro hb hin hf value ⟨⟩
    have hk := hb _ (hin _ List.mem_cons_self)
    refine ⟨_, .inr ⟨_, ?_, rfl⟩, joinsTo_of_reader hk hn (hf _ hc) hr⟩
    rw [hc, Node.text_of_reader? hn hr]
  | miss | never | itemsFail | optionsDone => exact fun _ _ _ _ hv => nomatch hv
  | always =>
    rintro hb hin hf value ⟨⟩
    exact ⟨[], .refl _, Value.joinsTo_str ""⟩
  | sequence hn _ ih | choice hn _ ih | times hn _ ih =>
    intro hb hin hf value hv
    refine ih hb (fun id hid => ?_) hf hv
    exact (hin _ List.mem_cons_self).child (by rw [hn]; exact hid)
  | itemsDone =>
    rintro hb hin hf value ⟨⟩
    exact ⟨[], .refl _, by rw [List.append_nil]; exact Value.joinsTo_list _⟩
  | itemsNext h hv _ ih ih' =>
    intro hb hin hf value hv'
    obtain ⟨hitem, hitems⟩ := List.forall_mem_cons.mp hin
    obtain ⟨passed, hp, hj⟩ := ih hb (List.forall_mem_singleton.mpr hitem) hf hv
    obtain ⟨passed', hp', hj'⟩ := ih' hb hitems (h.reaches.faces hf) hv'
    refine ⟨passed ++ passed', hp.trans hp', ?_⟩
    -- values are held with the last one first, so the text of a new one goes to the end
    rw [Task.joined, Value.joinItems_reverse_cons _ hj, List.append_assoc] at hj'
    exact hj'
  | optionsTake _ _ ih =>
    intro hb hin hf value hv
    exact ih hb (List.forall_mem_singleton.mpr (hin _ List.mem_cons_self)) hf hv
  | optionsNext _ _ _ _ ih' =>
    intro hb hin hf value hv
    exact ih' hb (List.forall_mem_cons.mp hin).2 hf hv
  | roundsFull | roundsFail =>
    intro hb hin hf value hv
    obtain ⟨hc, hj⟩ := joinsTo_of_endRounds hv
    exact ⟨[], by rw [hc]; exact .refl _, by rw [List.append_nil]; exact hj⟩
  | roundsStop _ _ hv _ ih =>
    intro hb hin hf value hv'
    obtain ⟨passed, hp, hj⟩ := ih hb hin hf hv
    obtain ⟨hc, hj'⟩ := joinsTo_of_endRounds hv'
    rw [Value.joinItems_reverse_cons _ hj] at hj'
    exact ⟨passed, by rw [hc]; exact hp, hj'⟩
  | roundsNext _ h hv _ _ ih ih' =>
    intro hb hin hf value hv'
    obtain ⟨passed, hp, hj⟩ := ih hb hin hf hv
    obtain ⟨passed', hp', hj'⟩ := ih' hb hin (h.reaches.faces hf) hv'
    refine ⟨passed ++ passed', hp.trans hp', ?_⟩
    rw [Task.joined, Value.joinItems_reverse_cons _ hj, List.append_assoc] at hj'
    exact hj'
  | map hn _ ih =>
    intro hb hin hf value hv
    have hi := hin _ List.mem_cons_self
    have hk := hb _ hi
    rw [Keeps, hn] at hk
    obtain ⟨inner, hv', rfl⟩ := Option.map_eq_some_iff.mp hv
    have hchild := hi.child (by rw [hn]; exact List.mem_singleton_self _)
    obtain ⟨passed, hp, hj⟩ := ih hb (List.forall_mem_singleton.mpr hchild) hf hv'
    exact ⟨passed, hp, by rw [hk]; exact hj.join⟩
  | chainFail hn | chain hn =>
    intro hb hin
    have hk := hb _ (hin _ List.mem_cons_self)
    rw [Keeps, hn] at hk
    exact hk.elim
  | look =>
    intro hb hin hf value hv
    exact ⟨[], by rw [Outcome.cursor_ofLook]; exact .refl _, joinsTo_of_ofLook hv⟩
  | deferred hn _ ih =>
    intro hb hin hf value hv
    exact ih hb (List.forall_mem_singleton.mpr ((hin _ List.mem_cons_self).inner (inner?_deferred hn))) hf hv
  | named hn _ ih =>
    intro hb hin hf value hv
    exact ih hb (List.forall_mem_singleton.mpr ((hin _ List.mem_cons_self).inner (inner?_named hn))) hf hv

/-- Nothing that a match reads is lost in its value, and nothing stands there twice: the joined value is the slice of the
text from where the match was begun to where it ends. At an offset which is no place of the text nothing is read. -/
theorem joined_value_is_slice {text : Text} {b : Rulebook} {id : NodeId}
    (hb : ∀ id', b.Inside id id' → b.Keeps text id') {depth position : Nat} {path : Path} {o : Outcome} {value : Value}
    (h : (b.matchNode text depth id path (Cursor.ofOffset text position)).result = .ok o)
    (hv : o.value = some value) :
    (text.IsBoundary position → ∃ before passed after, text = before ++ passed ++ after ∧ Text.size before = position ∧
      Text.size (before ++ passed) = o.cursor.offset ∧ value.join = .str (String.ofList passed)) ∧
    (¬text.IsBoundary position → o.cursor.offset = position ∧ value.join = .empty) := by
  obtain ⟨leaves, c⟩ := course_of_matchNode h
  have hids : ∀ id' ∈ (Task.node id).ids, b.Inside id id' := List.forall_mem_singleton.mpr .root
  obtain ⟨passed, hp, hj⟩ := c.joinsTo hb hids (Cursor.faces_ofOffset text position) hv
  refine ⟨fun hplace => ?_, fun hplace => ?_⟩
  · obtain ⟨before, after, ht, hbefore, hend⟩ := hp.eq_slice hplace
    exact ⟨before, passed, after, ht, hbefore, hend, hj⟩
  · obtain ⟨rfl, hcursor⟩ := hp.eq_nil (Cursor.rest_ofOffset_eq_none hplace)
    exact ⟨by rw [hcursor]; rfl, hj⟩

/-! ## A match whose value is a list -/

theorem keeps_of_anchored {text : Text} {b : Rulebook} {id : NodeId} {leaf : Pattern} {r : Regex}
    (hn : b.node id = .pattern leaf) (hc : leaf.capture = .whole) (hr : leaf.regex = .seq (.anchor .textStart) r) :
    b.Keeps text id := by
  rw [Keeps, hn]
  exact ⟨hc, fun _ _ _ => Pattern.skipped_of_search hr⟩

def strokes : Pattern where
  source := "b+"
  regex := .seq (.anchor .textStart) (.times (.set (.range 'b' 'b' false)) 1 none true)
  groupCount := 0
  capture := .whole
  readAs := Pattern.ReadAs.eq_ok (by decide +kernel)

def strokeRows : Rulebook where
  graph := {
    nodes := #[.pattern strokes, .literal "a", .look 0 .negative, .sequence [1, 4, 5], .map 7 0,
      .deferred (.node 8), .named 3 "row", .times 0 1 (some 2), .choice [6, 2]]
    mappers := #[Value.join] }

theorem keeps_strokeRows (text : Text) (id : NodeId) : strokeRows.Keeps text id := by
  match id with
  | 0 => exact keeps_of_anchored rfl rfl rfl
  | 1 | 2 | 3 | 5 | 6 | 7 | 8 => exact trivial
  | 4 => rfl
  | _ + 9 => exact trivial

theorem joined_value_of_strokeRows :
    (strokeRows.matchNode ['é', 'a', 'b', 'b', 'a', 'c'] 12 8 (Path.root 8)
      (Cursor.ofOffset ['é', 'a', 'b', 'b', 'a', 'c'] 2)).result =
        .ok ⟨some (.list [.str "a", .str "bb", .empty]), ⟨5, some ['a', 'c']⟩,
          some ⟨6, [⟨1, 0⟩, ⟨6, 0⟩, ⟨5, 2⟩, ⟨6, 0⟩, ⟨8, 0⟩]⟩⟩ ∧
    ∃ before passed after, ['é', 'a', 'b', 'b', 'a', 'c'] = before ++ passed ++ after ∧ Text.size before = 2 ∧
      Text.size (before ++ passed) = 5 ∧
      (Value.list [.str "a", .str "bb", .empty]).join = .str (String.ofList passed) := by
  have ho : (strokeRows.matchNode ['é', 'a', 'b', 'b', 'a', 'c'] 12 8 (Path.root 8)
    (Cursor.ofOffset ['é', 'a', 'b', 'b', 'a', 'c'] 2)).result =
      .ok ⟨some (.list [.str "a", .str "bb", .empty]), ⟨5, some ['a', 'c']⟩,
        some ⟨6, [⟨1, 0⟩, ⟨6, 0⟩, ⟨5, 2⟩, ⟨6, 0⟩, ⟨8, 0⟩]⟩⟩ := rfl
  exact ⟨ho, (joined_value_is_slice (fun id _ => keeps_strokeRows _ id) ho rfl).1 ⟨['é'], _, rfl, rfl⟩⟩

end FurthestMatch
