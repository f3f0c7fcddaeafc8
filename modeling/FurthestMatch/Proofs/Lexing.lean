import FurthestMatch.Proofs.Reading

/-!
# What backtracking takes first

An expression is greedy where it can be: of the ways to match, the first is to read on. `Regex.Takes` says of a kind
of texts that the first way which works out reads such a text, when what follows it cannot be read on into. Rules
for it follow the constructors of expressions.
-/

namespace FurthestMatch

namespace Regex

variable {α : Type} {r s : Regex} {U V S S' : Text → Prop}

/-- At a text of the kind `U` before a rest of the kind `S`, the expression reads the text when what follows works out
there. -/
def Takes (r : Regex) (U S : Text → Prop) : Prop :=
  ∀ (α : Type) (k : Progress → Option α) (b : Text) (g : List (Nat × Text)) (u rest : Text) (a : α), U u → S rest →
    k ⟨u.reverse ++ b, rest, g⟩ = some a → run r k ⟨b, u ++ rest, g⟩ = some a

def Fails (r : Regex) (rest : Text) : Prop :=
  ∀ (α : Type) (k : Progress → Option α) (b : Text) (g : List (Nat × Text)), run r k ⟨b, rest, g⟩ = none

theorem fails_of_not_spells {rest : Text} (h : ∀ t rest', r.Spells t → rest ≠ t ++ rest') : r.Fails rest := by
  intro α k b g
  cases hr : run r k ⟨b, rest, g⟩ with
  | none => rfl
  | some a =>
    obtain ⟨t, q, ht, hq, -⟩ := spelled_run r _ _ _ hr
    exact absurd hq.1 (h t _ ht)

/-! ## Characters -/

def StopsAt (s : CharSet) (rest : Text) : Prop :=
  ∀ c ∈ rest.head?, s.contains c = false

def StartsWith (P : Char → Prop) (u : Text) : Prop :=
  ∃ c v, u = c :: v ∧ P c

theorem stopsAt_cons {s : CharSet} {c : Char} {rest : Text} (h : s.contains c = false) : StopsAt s (c :: rest) := by
  rintro _ ⟨⟩
  exact h

theorem StartsWith.stopsAt {P : Char → Prop} {u : Text} (h : StartsWith P u) {s : CharSet}
    (hP : ∀ c, P c → s.contains c = false) (rest : Text) : StopsAt s (u ++ rest) := by
  obtain ⟨c, v, rfl, hc⟩ := h
  exact stopsAt_cons (hP c hc)

theorem takes_set (s : CharSet) : (set s).Takes (fun u => ∃ c, s.contains c ∧ u = [c]) fun _ => True := by
  rintro α k b g _ rest a ⟨c, hc, rfl⟩ - hk
  simp only [run, List.cons_append, List.nil_append, hc, if_true]
  exact hk

theorem fails_set {s : CharSet} {rest : Text} (h : StopsAt s rest) : (set s).Fails rest := by
  intro α k b g
  cases rest with
  | nil => rfl
  | cons c rest =>
    have hc := h c rfl
    simp [run, hc]

/-! ## Rows and options -/

theorem Takes.seq (h : r.Takes U S) (h' : s.Takes V S') (hS : ∀ v rest, V v → S' rest → S (v ++ rest)) :
    (seq r s).Takes (fun t => ∃ u v, U u ∧ V v ∧ t = u ++ v) S' := by
  rintro α k b g _ rest a ⟨u, v, hu, hv, rfl⟩ hr hk
  rw [List.append_assoc]
  refine h α _ b g u (v ++ rest) a hu (hS v rest hv hr) (h' α k _ g v rest a hv hr ?_)
  rwa [List.reverse_append, List.append_assoc] at hk

theorem Takes.weaken (h : r.Takes U S) (hU : ∀ t, V t → U t) (hS : ∀ t, S' t → S t) : r.Takes V S' :=
  fun α k b g u rest a hu hr => h α k b g u rest a (hU u hu) (hS rest hr)

theorem run_opt (k : Progress → Option α) (p : Progress) :
    run (.times r 0 (some 1) true) k p = (run r k p).orElse fun _ => k p := rfl

theorem Takes.opt (h : r.Takes U S) :
    (times r 0 (some 1) true).Takes (fun t => t = [] ∨ U t) fun rest => S rest ∧ r.Fails rest := by
  rintro α k b g t rest a ht ⟨hS, hF⟩ hk
  rw [run_opt]
  rcases ht with rfl | ht
  · rw [List.nil_append, hF]
    exact hk
  · rw [h α k b g t rest a ht hS hk]
    rfl

theorem run_look {k : Progress → Option α} {p : Progress} {a : α} :
    run (.look 0 false r) k p = some a ↔ run r some p = none ∧ k p = some a := by
  simp only [run, Progress.back?, Option.bind_some]
  cases run r some p <;> simp

theorem takes_look_of_fails : (look 0 false r).Takes (· = []) r.Fails := by
  intro α k b g u rest a hu hr hk
  subst hu
  exact run_look.mpr ⟨hr _ some b g, hk⟩

theorem takes_look {s : CharSet} : (look 0 false (.set s)).Takes (· = []) (StopsAt s) :=
  takes_look_of_fails.weaken (fun _ => id) fun _ => fails_set

/-! ## Rounds -/

section
variable (h : r.Takes U S) (hne : ∀ u, U u → u ≠ []) (hS : ∀ u rest, U u → S (u ++ rest))
include h hne hS

theorem further_of_takes : ∀ (ts : List Text) {fuel : Nat} {k : Progress → Option α} {b : Text} {g : List (Nat × Text)}
    {rest : Text} {a : α}, (∀ u ∈ ts, U u) → ts.flatten.length ≤ fuel → S rest → r.Fails rest →
      k ⟨ts.flatten.reverse ++ b, rest, g⟩ = some a →
        further (run r) true fuel k ⟨b, ts.flatten ++ rest, g⟩ = some a
  | [], 0, _, _, _, _, _, _, _, _, _, hk => hk
  | [], fuel + 1, k, b, g, rest, a, _, _, _, hF, hk => by
    rw [further]
    have hf := hF _ (fun p' => if p'.ahead.length < rest.length then further (run r) true fuel k p' else none) b g
    exact (congrArg (Option.orElse · fun _ => k ⟨b, rest, g⟩) hf).trans hk
  | u :: ts, 0, _, _, _, _, _, hU, hl, _, _, _ => by
    have hu := hne u (hU u List.mem_cons_self)
    rw [List.flatten_cons, List.length_append] at hl
    have hpos := List.length_pos_iff.mpr hu
    omega
  | u :: ts, fuel + 1, k, b, g, rest, a, hU, hl, hr, hF, hk => by
    have hu := hU u List.mem_cons_self
    have hpos := List.length_pos_iff.mpr (hne u hu)
    have hrest : S (ts.flatten ++ rest) := by
      cases ts with
      | nil => exact hr
      | cons v ts =>
        rw [List.flatten_cons, List.append_assoc]
        exact hS v _ (hU v (List.mem_cons_of_mem _ List.mem_cons_self))
    rw [List.flatten_cons, List.length_append] at hl
    rw [List.flatten_cons, List.reverse_append, List.append_assoc] at hk
    have hl' : ts.flatten.length ≤ fuel := by omega
    have next := further_of_takes ts (fun v hv => hU v (List.mem_cons_of_mem _ hv)) hl' hr hF hk
    have hfirst := h _ (fun p' => if p'.ahead.length < (u ++ (ts.flatten ++ rest)).length
      then further (run r) true fuel k p' else none) b g u (ts.flatten ++ rest) a hu hrest
    rw [further, List.flatten_cons, List.append_assoc]
    refine (congrArg (Option.orElse · _) (hfirst ?_)).trans rfl
    simp only [List.length_append]
    rw [if_pos (by omega)]
    exact next

theorem takes_oneOrMore {k : Progress → Option α} {b : Text} {g : List (Nat × Text)} {t rest : Text} {a : α}
    (ht : Rounds U (1 ≤ ·) t) (hr : S rest) (hF : r.Fails rest) (hk : k ⟨t.reverse ++ b, rest, g⟩ = some a) :
    oneOrMore (run r) true k ⟨b, t ++ rest, g⟩ = some a := by
  obtain ⟨_ | ⟨u, ts⟩, hl, hU, rfl⟩ := ht
  · exact absurd hl (by decide)
  have hu := hU u List.mem_cons_self
  have hpos := List.length_pos_iff.mpr (hne u hu)
  have hrest : S (ts.flatten ++ rest) := by
    cases ts with
    | nil => exact hr
    | cons v ts =>
      rw [List.flatten_cons, List.append_assoc]
      exact hS v _ (hU v (List.mem_cons_of_mem _ List.mem_cons_self))
  rw [List.flatten_cons, List.reverse_append, List.append_assoc] at hk
  rw [oneOrMore, List.flatten_cons, List.append_assoc]
  refine h _ _ b g u (ts.flatten ++ rest) a hu hrest ?_
  simp only [List.length_append]
  rw [if_pos (by omega)]
  exact further_of_takes h hne hS ts (fun v hv => hU v (List.mem_cons_of_mem _ hv)) (by omega) hr hF hk

theorem Takes.plus : (times r 1 none true).Takes (Rounds U (1 ≤ ·)) fun rest => S rest ∧ r.Fails rest :=
  fun _ _ _ _ _ _ _ ht hr hk => takes_oneOrMore h hne hS ht hr.1 hr.2 hk

theorem Takes.star : (times r 0 none true).Takes (Rounds U fun _ => True) fun rest => S rest ∧ r.Fails rest := by
  rintro α k b g t rest a ⟨ts, -, hU, rfl⟩ ⟨hr, hF⟩ hk
  show (oneOrMore (run r) true k ⟨b, ts.flatten ++ rest, g⟩).orElse (fun _ => k ⟨b, ts.flatten ++ rest, g⟩) = some a
  cases ts with
  | nil =>
    have hf : oneOrMore (run r) true k ⟨b, rest, g⟩ = none := hF _ _ b g
    rw [List.flatten_nil, List.nil_append, hf]
    exact hk
  | cons u ts =>
    rw [takes_oneOrMore h hne hS ⟨u :: ts, Nat.le_add_left 1 _, hU, rfl⟩ hr hF hk]
    rfl

end

def AllIn (s : CharSet) (t : Text) : Prop :=
  ∀ c ∈ t, s.contains c

theorem eq_map_singleton {s : CharSet} : ∀ {ts : List Text}, (∀ u ∈ ts, ∃ c, s.contains c ∧ u = [c]) →
    ts = ts.flatten.map fun c => [c]
  | [], _ => rfl
  | _ :: ts, h => by
    obtain ⟨c, -, rfl⟩ := h _ List.mem_cons_self
    have ih := eq_map_singleton fun u hu => h u (List.mem_cons_of_mem _ hu)
    exact congrArg ([c] :: ·) ih

theorem rounds_singletons {s : CharSet} {count : Nat → Prop} {t : Text} :
    Rounds (fun u => ∃ c, s.contains c ∧ u = [c]) count t ↔ count t.length ∧ AllIn s t := by
  constructor
  · rintro ⟨ts, hc, hts, rfl⟩
    have hl : ts.length = ts.flatten.length := by
      rw [congrArg List.length (eq_map_singleton hts), List.length_map]
    refine ⟨hl ▸ hc, fun c hc => ?_⟩
    obtain ⟨u, hu, hcu⟩ := List.mem_flatten.mp hc
    obtain ⟨d, hd, rfl⟩ := hts u hu
    rwa [List.mem_singleton.mp hcu]
  · rintro ⟨hc, ht⟩
    refine ⟨t.map fun c => [c], by rwa [List.length_map], fun u hu => ?_, ?_⟩
    · obtain ⟨c, hc, rfl⟩ := List.mem_map.mp hu
      exact ⟨c, ht c hc, rfl⟩
    · rw [← List.flatMap_def, List.flatMap_singleton']

/-! ## Expressions for the start of a text -/

theorem searchFrom_anchored : ∀ {behind ahead : Text}, behind ≠ [] →
    searchFrom (.seq (.anchor .textStart) r) behind ahead = none
  | _ :: _, [], _ => rfl
  | b :: behind, c :: rest, _ =>
    have h : searchFrom (.seq (.anchor .textStart) r) (c :: b :: behind) rest = none :=
      searchFrom_anchored (List.cons_ne_nil _ _)
    h

theorem search_anchored (r : Regex) (t : Text) : search (.seq (.anchor .textStart) r) t = matchAt r [] t := by
  cases t with
  | nil => rfl
  | cons c t =>
    have hs : matchAt (.seq (.anchor .textStart) r) [] (c :: t) = matchAt r [] (c :: t) := rfl
    rw [search, searchFrom, searchFrom_anchored (List.cons_ne_nil _ _), hs]
    cases matchAt r [] (c :: t) <;> rfl

end Regex

namespace Pattern

open Regex

variable {p : Pattern} {r : Regex} (hp : p.regex = .seq (.anchor .textStart) r)
include hp

theorem matchIn_eq_some {t rest : Text} {g : List (Nat × Text)}
    (h : run r some ⟨[], t ++ rest, []⟩ = some ⟨t.reverse, rest, g⟩) :
    p.matchIn (t ++ rest) = some (p.extract ⟨[], t, rest, g⟩, t, rest) := by
  have hs : (⟨t.reverse, rest, g⟩ : Progress).since ⟨[], t ++ rest, []⟩ = t := by simp [Progress.since]
  rw [matchIn, hp, search_anchored, matchAt, h]
  simp [hs]

theorem skipped_of_search {t : Text} {found : Found} (h : p.regex.search t = some found) : found.skipped = [] := by
  rw [hp, search_anchored] at h
  obtain ⟨q, -, rfl⟩ := Option.map_eq_some_iff.mp h
  rfl

theorem spells_of_matchIn {t read rest : Text} {v : Value} (h : p.matchIn t = some (v, read, rest)) :
    t = read ++ rest ∧ r.Spells read ∧ ∃ g, v = p.extract ⟨[], read, rest, g⟩ := by
  obtain ⟨found, hf, he⟩ := Option.map_eq_some_iff.mp h
  rw [hp, search_anchored] at hf
  obtain ⟨q, hq, rfl⟩ := Option.map_eq_some_iff.mp hf
  obtain ⟨u, q', hu, hpass, he'⟩ := spelled_run r _ _ _ hq
  cases he'
  cases he
  simp only [Progress.since_eq hpass, List.reverse_nil, List.nil_append]
  exact ⟨hpass.1, hu, _, rfl⟩

end Pattern

end FurthestMatch
