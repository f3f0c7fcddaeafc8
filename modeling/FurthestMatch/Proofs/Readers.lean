import FurthestMatch.Proofs.Growth
import FurthestMatch.Proofs.Reports

/-!
# Readers

A grammar without second stages and looks ahead reads the front of a text: a value and what is left, or nothing. A
reader says so as a function of the text alone. Every kind of recipe has a reader, and a node that a recipe was planted
as matches as the reader reads, as soon as the matcher may go deep enough.
-/

namespace FurthestMatch

abbrev Reader := Text → Option (Value × Text)

namespace Reader

def literal (s : String) : Reader := fun t =>
  (Text.after? s.toList t).map fun rest => (.str s, rest)

def pattern (source : String) (capture : Capture) : Reader := fun t =>
  match Pattern.ofSource source capture with
  | .ok p => (p.matchIn t).map fun (v, _, rest) => (v, rest)
  | .error _ => none

def always : Reader := fun t => some (.empty, t)

def map (f : Value → Value) (r : Reader) : Reader := fun t =>
  (r t).map fun (v, rest) => (f v, rest)

def all : List Reader → Text → Option (List Value × Text)
  | [], t => some ([], t)
  | r :: rs, t => (r t).bind fun (v, rest) => (all rs rest).map fun (vs, rest) => (v :: vs, rest)

def sequence (rs : List Reader) : Reader := fun t =>
  (all rs t).map fun (vs, rest) => (.list vs, rest)

def choice (rs : List Reader) : Reader := fun t =>
  rs.findSome? fun r => r t

def rounds (r : Reader) : (fuel : Nat) → Text → List Value × Text
  | 0, t => ([], t)
  | fuel + 1, t => match r t with
    | none => ([], t)
    | some (v, rest) => ((v :: (rounds r fuel rest).1), (rounds r fuel rest).2)

def times (r : Reader) (least : Nat) : Reader := fun t =>
  if (rounds r t.length t).1.length < least then none
  else some (.list (rounds r t.length t).1, (rounds r t.length t).2)

def sepBy (item separator : Reader) : Reader :=
  choice [map Recipe.gather (sequence [item, times (map (·.nth 1) (sequence [separator, item])) 0]),
    map (fun _ => .list []) always]

def Shrinks (r : Reader) : Prop :=
  ∀ t v rest, r t = some (v, rest) → rest.length < t.length

end Reader

def Outcome.Shows (o : Outcome) : Option (Value × Text) → Prop
  | none => o.value = none
  | some (v, rest) => o.value = some v ∧ o.cursor.rest = some rest

theorem Cursor.Reaches.rest_length_le {c d : Cursor} (h : c.Reaches d) {t rest : Text} (hc : c.rest = some t)
    (hd : d.rest = some rest) : rest.length ≤ t.length := by
  have hl := h.length_le
  rwa [hc, hd] at hl

theorem Cursor.Reaches.offset_lt {c d : Cursor} (h : c.Reaches d) {t rest : Text} (hc : c.rest = some t)
    (hd : d.rest = some rest) (hl : rest.length < t.length) : c.offset < d.offset := by
  rcases h with rfl | ⟨passed, rest', hc', rfl⟩
  · cases hc.symm.trans hd
    exact absurd hl (Nat.lt_irrefl _)
  · cases hc.symm.trans hc'
    cases hd
    have hne : passed ≠ [] := by
      rintro rfl
      exact absurd hl (Nat.lt_irrefl _)
    have hpos := Nat.pos_of_ne_zero fun hz => hne (Text.size_eq_zero_iff.mp hz)
    simp only [Cursor.advance]
    omega

namespace Rulebook

variable {b : Rulebook} {depth bound : Nat} {id x : NodeId} {t : Text} {r : Option (Value × Text)}

/-- Wherever a text is what is left, and at any depth from some depth on, the node matches with the given result. -/
def Reads (b : Rulebook) (depth : Nat) (id : NodeId) (t : Text) (r : Option (Value × Text)) : Prop :=
  ∀ text, ∀ n ≥ depth, ∀ path cursor, cursor.rest = some t →
    ∃ o, (b.matchNode text n id path cursor).result = .ok o ∧ o.Shows r

theorem Reads.mono {depth' : Nat} (h : b.Reads depth id t r) (hd : depth ≤ depth') : b.Reads depth' id t r :=
  fun text n hn => h text n (Nat.le_trans hd hn)

theorem reads_of_succ (h : ∀ text, ∀ n ≥ depth, ∀ path cursor, cursor.rest = some t →
    ∃ o, (b.matchNode text (n + 1) id path cursor).result = .ok o ∧ o.Shows r) : b.Reads (depth + 1) id t r := by
  intro text n hn path cursor hc
  obtain ⟨m, rfl⟩ : ∃ m, n = m + 1 := ⟨n - 1, by omega⟩
  exact h text m (by omega) path cursor hc

def ReadsAs (b : Rulebook) (depth bound : Nat) (id : NodeId) (f : Reader) : Prop :=
  ∀ t, t.length < bound → b.Reads depth id t (f t)

theorem ReadsAs.mono {depth' : Nat} {f : Reader} (h : b.ReadsAs depth bound id f) (hd : depth ≤ depth') :
    b.ReadsAs depth' bound id f :=
  fun t ht => (h t ht).mono hd

def Realizes (b : Rulebook) (depth bound : Nat) (r : Recipe) (f : Reader) : Prop :=
  ∀ first x, b.graph.Holds first r x → b.ReadsAs depth bound x f

theorem Realizes.mono {depth' : Nat} {r : Recipe} {f : Reader} (h : b.Realizes depth bound r f) (hd : depth ≤ depth') :
    b.Realizes depth' bound r f :=
  fun first x hx => (h first x hx).mono hd

/-- Recipes read one after the other as readers do. After one that always reads something the texts are shorter. -/
inductive RealizesAll (b : Rulebook) (depth : Nat) : Nat → List Recipe → List Reader → Prop
  | nil {bound : Nat} : RealizesAll b depth bound [] []
  | cons {bound : Nat} {r : Recipe} {f rs fs} (h : b.Realizes depth bound r f) (hs : RealizesAll b depth bound rs fs) :
      RealizesAll b depth bound (r :: rs) (f :: fs)
  | shrink {bound : Nat} {r : Recipe} {f rs fs} (h : b.Realizes depth (bound + 1) r f) (hf : f.Shrinks)
      (hs : RealizesAll b depth bound rs fs) : RealizesAll b depth (bound + 1) (r :: rs) (f :: fs)

/-! ## What is left after a match -/

theorem Reads.length_le {v : Value} {rest : Text} (h : b.Reads depth id t (some (v, rest))) :
    rest.length ≤ t.length := by
  obtain ⟨o, ho, -, hr⟩ := h [] depth (Nat.le_refl _) [] ⟨0, some t⟩ rfl
  exact (reaches_of_matchNode ho).rest_length_le rfl hr

/-! ## Leaves -/

section
variable {text : Text} {cursor : Cursor}

theorem shows_ofLeaf (path : Path) (read : Text → Option (Value × Text × Text)) (hc : cursor.rest = some t) :
    ∃ o, (Outcome.ofLeaf path cursor read).result = .ok o ∧ o.Shows ((read t).map fun (v, _, rest) => (v, rest)) := by
  simp only [Outcome.ofLeaf, hc]
  cases read t with
  | none => exact ⟨_, rfl, rfl⟩
  | some found => exact ⟨_, rfl, rfl, rfl⟩

end

theorem reads_literal {s : String} (hn : b.node id = .literal s) : b.Reads (depth + 1) id t (Reader.literal s t) := by
  refine reads_of_succ fun text n _ path cursor hc => ?_
  simp only [matchNode, hn]
  obtain ⟨o, ho, hs⟩ := shows_ofLeaf path (readLiteral s) hc
  refine ⟨o, ho, ?_⟩
  rwa [readLiteral, Option.map_map] at hs

theorem reads_pattern {p : Pattern} (hn : b.node id = .pattern p) :
    b.Reads (depth + 1) id t ((p.matchIn t).map fun (v, _, rest) => (v, rest)) := by
  refine reads_of_succ fun text n _ path cursor hc => ?_
  simp only [matchNode, hn]
  exact shows_ofLeaf path p.matchIn hc

theorem reads_always (hn : b.node id = .always) : b.Reads (depth + 1) id t (some (.empty, t)) := by
  refine reads_of_succ fun text n _ path cursor hc => ?_
  simp only [matchNode, hn]
  exact ⟨_, rfl, rfl, hc⟩

theorem reads_never (hn : b.node id = .never) : b.Reads (depth + 1) id t none := by
  refine reads_of_succ fun text n _ path cursor hc => ?_
  simp only [matchNode, hn]
  exact ⟨_, rfl, rfl⟩

/-! ## One rule for each kind of node -/

theorem reads_named {child : NodeId} {label : String} (hn : b.node id = .named child label) (h : b.Reads depth child t r) :
    b.Reads (depth + 1) id t r := by
  refine reads_of_succ fun text n hd path cursor hc => ?_
  simp only [matchNode, hn]
  exact h text n hd path cursor hc

theorem reads_deferred {target : Target} (hn : b.node id = .deferred target)
    (h : b.Reads depth (b.target id target) t r) : b.Reads (depth + 1) id t r := by
  refine reads_of_succ fun text n hd path cursor hc => ?_
  simp only [matchNode, hn]
  obtain ⟨o, ho, hs⟩ := h text n hd path cursor hc
  exact ⟨o, (Walk.result_bind_of_ok (Walk.result_follow _) _).trans ho, hs⟩

theorem reads_map {child : NodeId} {mapper : MapperId} (hn : b.node id = .map child mapper)
    (h : b.Reads depth child t r) :
    b.Reads (depth + 1) id t (r.map fun (v, rest) => (b.graph.mapper mapper v, rest)) := by
  refine reads_of_succ fun text n hd path cursor hc => ?_
  simp only [matchNode, hn]
  obtain ⟨o, ho, hs⟩ := h text n hd (path.child child 0) cursor hc
  refine ⟨_, (Walk.result_bind_of_ok ho _).trans rfl, ?_⟩
  cases r with
  | none => exact congrArg (Option.map _) hs
  | some found => exact ⟨congrArg (Option.map _) hs.1, hs.2⟩

section
variable {text : Text} {n : Nat} (hd : n ≥ depth)
include hd

theorem shows_ofChoice (path : Path) {cursor : Cursor} (hc : cursor.rest = some t) {ids : List NodeId}
    {fs : List Reader} {slot : Nat} {best : Option Furthest}
    (h : List.Forall₂ (fun x (f : Reader) => b.Reads depth x t (f t)) ids fs) :
    ∃ o, (Outcome.ofChoice (b.matchNode text n) path cursor ids slot best).result = .ok o ∧
      o.Shows (Reader.choice fs t) := by
  induction h generalizing slot best with
  | nil => exact ⟨_, rfl, rfl⟩
  | @cons x f ids fs h _ ih =>
    obtain ⟨o, ho, hshow⟩ := h text n hd (path.child x slot) cursor hc
    rw [Outcome.ofChoice, Reader.choice, List.findSome?_cons]
    cases hf : f t with
    | none =>
      rw [hf] at hshow
      have hv : o.value = none := hshow
      obtain ⟨o', ho', hshow'⟩ := @ih (slot + 1) (Furthest.merge best o.best)
      refine ⟨o', (Walk.result_bind_of_ok ho _).trans ?_, hshow'⟩
      simp only [Outcome.succeeded, hv, Option.isSome_none, Bool.false_eq_true, if_false]
      exact ho'
    | some found =>
      rw [hf] at hshow
      obtain ⟨hv, hr⟩ := hshow
      refine ⟨{ o with best := Furthest.merge best o.best }, (Walk.result_bind_of_ok ho _).trans ?_, hv, hr⟩
      simp [Outcome.succeeded, hv]

theorem shows_ofSequence (path : Path) {first : NodeId} {rs : List Recipe} {fs : List Reader}
    (h : b.RealizesAll depth bound rs fs) : ∀ {ids : List NodeId} {t : Text} {slot : Nat} {values : List Value}
      {cursor : Cursor} {best : Option Furthest}, b.graph.HoldsAll first rs ids → t.length < bound →
        cursor.rest = some t →
          ∃ o, (Outcome.ofSequence (b.matchNode text n) path ids slot values cursor best).result = .ok o ∧
            o.Shows ((Reader.all fs t).map fun (vs, rest) => (.list (values.reverse ++ vs), rest)) := by
  have step {f : Reader} {fs : List Reader} {x : NodeId} {ids : List NodeId} {t : Text} {slot : Nat}
      {values : List Value} {cursor : Cursor} {best : Option Furthest} (hx : b.Reads depth x t (f t))
      (hc : cursor.rest = some t)
      (next : ∀ v rest cursor best, f t = some (v, rest) → rest.length ≤ t.length → cursor.rest = some rest →
        ∃ o, (Outcome.ofSequence (b.matchNode text n) path ids (slot + 1) (v :: values) cursor best).result = .ok o ∧
          o.Shows ((Reader.all fs rest).map fun (vs, rest) => (.list ((v :: values).reverse ++ vs), rest))) :
      ∃ o, (Outcome.ofSequence (b.matchNode text n) path (x :: ids) slot values cursor best).result = .ok o ∧
        o.Shows ((Reader.all (f :: fs) t).map fun (vs, rest) => (.list (values.reverse ++ vs), rest)) := by
    obtain ⟨o, ho, hshow⟩ := hx text n hd (path.child x slot) cursor hc
    rw [Outcome.ofSequence, Reader.all]
    cases hf : f t with
    | none =>
      rw [hf] at hshow
      have hv : o.value = none := hshow
      refine ⟨⟨none, cursor, Furthest.merge best o.best⟩, (Walk.result_bind_of_ok ho _).trans ?_, rfl⟩
      simp [hv]
    | some found =>
      obtain ⟨v, rest⟩ := found
      rw [hf] at hshow hx
      obtain ⟨hv, hr⟩ := hshow
      obtain ⟨o', ho', hshow'⟩ := next v rest o.cursor (Furthest.merge best o.best) hf hx.length_le hr
      refine ⟨o', (Walk.result_bind_of_ok ho _).trans ?_, ?_⟩
      · simp only [hv]
        exact ho'
      · simpa [Option.map_map, Function.comp_def] using hshow'
  induction h with
  | nil =>
    intro ids t slot values cursor best hids _ hc
    cases ids with
    | nil => exact ⟨_, rfl, by simp, hc⟩
    | cons => exact hids.elim
  | cons h hs ih =>
    intro ids t slot values cursor best hids ht hc
    cases ids with
    | nil => exact hids.elim
    | cons x ids =>
      refine step (h first x hids.1 t ht) hc fun v rest cursor best _ hl hr => ?_
      exact ih hids.2 (Nat.lt_of_le_of_lt hl ht) hr
  | shrink h hf hs ih =>
    intro ids t slot values cursor best hids ht hc
    cases ids with
    | nil => exact hids.elim
    | cons x ids =>
      refine step (h first x hids.1 t ht) hc fun v rest cursor best hr _ hc => ?_
      exact ih hids.2 (Nat.lt_of_lt_of_le (hf t v rest hr) (Nat.le_of_lt_succ ht)) hc

theorem shows_ofRounds (path : Path) {child : NodeId} {f : Reader} (h : b.ReadsAs depth bound child f)
    (hf : f.Shrinks) {least : Nat} {start : Cursor} : ∀ (fuel limit : Nat) (values : List Value)
      (best : Option Furthest) {t : Text} {cursor : Cursor}, t.length ≤ fuel → fuel < limit → t.length < bound →
        cursor.rest = some t → ∃ o,
          (Outcome.ofRounds (b.matchNode text n child (path.child child 0)) least none start limit values cursor
            best).result = .ok o ∧
          o.Shows (if values.length + (Reader.rounds f fuel t).1.length < least then none
            else some (.list (values.reverse ++ (Reader.rounds f fuel t).1), (Reader.rounds f fuel t).2))
  | _, 0, _, _, _, _, _, hl, _, _ => absurd hl (Nat.not_lt_zero _)
  | fuel, limit + 1, values, best, t, cursor, ht, hl, hb, hc => by
    obtain ⟨o, ho, hshow⟩ := h t hb text n hd (path.child child 0) cursor hc
    rw [Outcome.ofRounds]
    simp only [Option.any_none, Bool.false_eq_true, if_false]
    cases hft : f t with
    | none =>
      rw [hft] at hshow
      have hv : o.value = none := hshow
      have hrounds : Reader.rounds f fuel t = ([], t) := by
        cases fuel with
        | zero => rfl
        | succ => simp only [Reader.rounds, hft]
      refine ⟨_, (Walk.result_bind_of_ok ho _).trans (by simp only [hv]; rfl), ?_⟩
      rw [hrounds]
      simp only [List.length_nil, Nat.add_zero, List.append_nil, Outcome.endRounds]
      split
      · exact rfl
      · exact ⟨rfl, hc⟩
    | some found =>
      obtain ⟨v, rest⟩ := found
      rw [hft] at hshow
      obtain ⟨hv, hr⟩ := hshow
      have hlt := hf t v rest hft
      have hgo := (reaches_of_matchNode ho).offset_lt hc hr hlt
      obtain ⟨fuel, rfl⟩ : ∃ m, fuel = m + 1 := ⟨fuel - 1, by omega⟩
      have hstop : ¬(o.cursor.offset ≤ cursor.offset ∧ least ≤ (v :: values).length) := fun hs =>
        absurd hs.1 (Nat.not_le_of_lt hgo)
      have hrest : rest.length ≤ fuel := by omega
      obtain ⟨o', ho', hshow'⟩ := shows_ofRounds path h hf fuel limit (v :: values) (Furthest.merge best o.best) hrest
        (by omega) (by omega) hr
      refine ⟨o', (Walk.result_bind_of_ok ho _).trans ?_, ?_⟩
      · simp only [hv, if_neg hstop]
        exact ho'
      · simp only [Reader.rounds, hft, List.length_cons, List.reverse_cons, List.append_assoc, List.singleton_append]
          at hshow' ⊢
        rwa [show values.length + ((Reader.rounds f fuel rest).1.length + 1) =
          values.length + 1 + (Reader.rounds f fuel rest).1.length by omega]

end

/-! ## One rule for each kind of recipe -/

section
variable {rs : List Recipe} {fs : List Reader} {recipe : Recipe} {f : Reader}

theorem realizes_literal (s : String) : b.Realizes (depth + 1) bound (.literal s) (.literal s) :=
  fun _ _ hx _ _ => reads_literal (Graph.Has.node_eq hx)

theorem realizes_always : b.Realizes (depth + 1) bound .always .always :=
  fun _ _ hx _ _ => reads_always (Graph.Has.node_eq hx)

theorem realizes_knownPattern (source : String) :
    b.Realizes (depth + 1) bound (.knownPattern source) (.pattern source .whole) := by
  intro first x hx t _
  unfold Recipe.knownPattern Recipe.ofPattern at hx
  unfold Reader.pattern
  cases hp : Pattern.ofSource source .whole with
  | ok p =>
    rw [hp] at hx
    exact reads_pattern (Graph.Has.node_eq hx)
  | error =>
    rw [hp] at hx
    exact reads_never (Graph.Has.node_eq hx)

theorem realizes_node {id : NodeId} (h : b.ReadsAs depth bound id f) : b.Realizes depth bound (.node id) f := by
  rintro first x rfl
  exact h

theorem realizes_named (h : b.Realizes depth bound recipe f) (label : String) :
    b.Realizes (depth + 1) bound (.named recipe label) f := by
  rintro first x ⟨child, hc, hx⟩ t ht
  exact reads_named hx.node_eq (h first child hc t ht)

theorem realizes_map (h : b.Realizes depth bound recipe f) (mapper : Value → Value) :
    b.Realizes (depth + 1) bound (.map recipe mapper) (f.map mapper) := by
  rintro first x ⟨child, m, hc, hm, hx⟩ t ht
  have hmapper : b.graph.mapper m = mapper := by
    rw [Graph.mapper, hm]
    rfl
  have hr := reads_map hx.node_eq (h first child hc t ht)
  rwa [hmapper] at hr

theorem realizes_sequence (h : b.RealizesAll depth bound rs fs) :
    b.Realizes (depth + 1) bound (.sequence rs) (.sequence fs) := by
  rintro first x ⟨ids, hids, hx⟩ t ht
  refine reads_of_succ fun text n hd path cursor hc => ?_
  rw [matchNode, show b.node x = .sequence ids from hx.node_eq]
  exact shows_ofSequence hd path h hids ht hc

theorem realizes_choice (h : List.Forall₂ (b.Realizes depth bound) rs fs) :
    b.Realizes (depth + 1) bound (.choice rs) (.choice fs) := by
  rintro first x ⟨ids, hids, hx⟩ t ht
  have hall : List.Forall₂ (fun x (f : Reader) => b.Reads depth x t (f t)) ids fs := by
    clear hx
    induction h generalizing ids with
    | nil =>
      cases ids with
      | nil => exact .nil
      | cons => exact hids.elim
    | cons h _ ih =>
      cases ids with
      | nil => exact hids.elim
      | cons y ids => exact .cons (h first y hids.1 t ht) (ih ids hids.2)
  refine reads_of_succ fun text n hd path cursor hc => ?_
  rw [matchNode, show b.node x = .choice ids from hx.node_eq]
  exact shows_ofChoice hd path hc hall

theorem realizes_times (h : b.Realizes depth bound recipe f) (hf : f.Shrinks) (least : Nat) :
    b.Realizes (depth + 1) bound (.times recipe least none) (f.times least) := by
  rintro first x ⟨child, hchild, hx⟩ t ht
  refine reads_of_succ fun text n hd path cursor hc => ?_
  rw [matchNode, show b.node x = .times child least none from hx.node_eq]
  have hlimit : t.length < Outcome.roundLimit least cursor := by
    rw [Outcome.roundLimit, hc, Option.getD_some]
    omega
  obtain ⟨o, ho, hshow⟩ := shows_ofRounds hd path (h first child hchild) hf t.length _ [] none (Nat.le_refl _) hlimit
    ht hc
  refine ⟨o, ho, ?_⟩
  simpa [Reader.times] using hshow

end

theorem realizes_sepBy {item separator : NodeId} {f g : Reader} (hi : b.ReadsAs depth bound item f)
    (hs : b.ReadsAs depth bound separator g) (h : (Reader.map (·.nth 1) (.sequence [g, f])).Shrinks) :
    b.Realizes (depth + 6) bound (.sepBy item separator 0 false) (.sepBy f g) := by
  have hitem : b.Realizes depth bound (.node item) f := realizes_node hi
  have hjoined : b.Realizes (depth + 2) bound (.map (.sequence [.node separator, .node item]) (·.nth 1))
      (.map (·.nth 1) (.sequence [g, f])) :=
    realizes_map (realizes_sequence (.cons (realizes_node hs) (.cons hitem .nil))) _
  have hrow := realizes_sequence (.cons (hitem.mono (by omega)) (.cons (realizes_times hjoined h 0) .nil))
  have hnone : b.Realizes (depth + 5) bound (.map .always fun _ => .list []) (.map (fun _ => .list []) .always) :=
    realizes_map realizes_always _
  exact realizes_choice (.cons (realizes_map hrow _) (.cons hnone .nil))

/-! ## Whole texts -/

/-- A node that reads a text as a reader does accepts what the reader reads to its end. -/
theorem run_of_reads (h : b.Reads depth id t r) : ∀ n ≥ depth, ∃ o, (b.runWithin n id t).result = .ok o ∧
    ∀ v, o.value = some v ↔ r = some (v, []) := by
  intro n hn
  have hstart : Cursor.ofOffset t 0 = ⟨0, some t⟩ := by
    rw [Cursor.ofOffset]
    cases t <;> rfl
  obtain ⟨o, ho, hshow⟩ := h t n hn (Path.root id) ⟨0, some t⟩ rfl
  have hreach := reaches_of_matchNode ho
  rw [← hstart] at ho
  refine ⟨_, (Walk.result_bind_of_ok ho _).trans rfl, fun v => ?_⟩
  cases r with
  | none =>
    have hv : o.value = none := hshow
    simp [Outcome.succeeded, hv]
  | some found =>
    obtain ⟨w, rest⟩ := found
    obtain ⟨hv, hr⟩ := hshow
    have hoff : o.cursor.offset = Text.size t ↔ rest = [] := by
      rcases hreach with he | ⟨passed, rest', hc, he⟩
      · rw [he] at hr ⊢
        cases hr
        rw [← Text.size_eq_zero_iff]
        exact eq_comm
      · rw [he] at hr ⊢
        cases hr
        cases hc
        rw [← Text.size_eq_zero_iff, Text.size_append]
        show 0 + Text.size passed = Text.size passed + Text.size rest ↔ Text.size rest = 0
        omega
    by_cases hrest : rest = []
    · simp [Outcome.succeeded, hv, hoff.mpr hrest, hrest]
    · have hne : o.cursor.offset ≠ Text.size t := fun he => hrest (hoff.mp he)
      simp [Outcome.succeeded, hv, hne, hrest, Outcome.failAt]

/-- A parse answers what a reader reads to the end of the text, and a report otherwise. -/
theorem parse_of_reads (h : b.Reads depth id t r) (hd : depth ≤ b.matchLimit t) (hg : b.Grounded id) (config : Config)
    (withDrawing : Bool) : ∃ answer, (b.parse config id t withDrawing).result = .ok answer ∧
      ∀ v, answer = .ok v ↔ r = some (v, []) := by
  obtain ⟨o, ho, hv⟩ := run_of_reads h (b.matchLimit t) hd
  obtain ⟨answer, ha⟩ := (answers_parseWithin ho config fun _ => hg).answers
  refine ⟨answer, ha, fun v => Iff.trans ?_ (hv v)⟩
  rw [parseWithin, Walk.result_bind_of_ok ho] at ha
  cases hvalue : o.value with
  | some w =>
    rw [hvalue] at ha
    cases ha
    simp
  | none =>
    rw [hvalue] at ha
    obtain ⟨failure, -, hf⟩ := Walk.result_bind_eq_ok.mp ha
    cases hf
    simp

end Rulebook

end FurthestMatch
