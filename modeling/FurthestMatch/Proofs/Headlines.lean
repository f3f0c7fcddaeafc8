import FurthestMatch.Proofs.Reports

/-!
# Headlines of reports

A report says whether a leaf has matched by what the match has kept. A leaf match that ends at the start of the text
goes no further than none at all, so whatever merges it drops it: it is kept only where nothing does.
-/

namespace FurthestMatch

/-- A node whose match begins with a leaf, and nothing on the way to the leaf merges what it keeps: there are names and
references, maps, and chains that have it in their first stage. -/
inductive Rulebook.Bare (b : Rulebook) : NodeId → Prop
  | leaf {id read} (hn : (b.node id).reader? = some read) : Bare b id
  | always {id} (hn : b.node id = .always) : Bare b id
  | named {id child label} (hn : b.node id = .named child label) (h : Bare b child) : Bare b id
  | deferred {id target} (hn : b.node id = .deferred target) (h : Bare b (b.target id target)) : Bare b id
  | map {id child mapper} (hn : b.node id = .map child mapper) (h : Bare b child) : Bare b id
  | chain {id child next} (hn : b.node id = .chain child next) (h : Bare b child) : Bare b id

namespace Furthest

def Beyond (best : Option Furthest) : Prop :=
  ∀ f, best = some f → 0 < f.offset

variable {best : Option Furthest}

theorem Beyond.none : Beyond none :=
  fun _ h => nomatch h

theorem Beyond.merge (h : Beyond best) (best' : Option Furthest) : Beyond (merge best best') := by
  unfold Furthest.merge
  split
  · rintro f rfl
    exact Nat.lt_of_le_of_lt (Nat.zero_le _) ‹_›
  · exact h

theorem Beyond.eq_none (h : Beyond best) (hr : reach best = 0) : best = Option.none := by
  cases best with
  | none => rfl
  | some f => exact absurd hr (Nat.ne_of_gt (h f rfl))

theorem reach_ofLeaves_eq_zero_iff {leaves : List Furthest} :
    reach (ofLeaves leaves) = 0 ↔ ∀ leaf ∈ leaves, leaf.offset = 0 := by
  induction leaves with
  | nil => exact iff_of_true rfl nofun
  | cons leaf leaves ih =>
    rw [ofLeaves_cons, reach_merge, reach_merge, List.forall_mem_cons, ← ih]
    show max (max 0 leaf.offset) _ = 0 ↔ _
    omega

theorem eq_none_of_merge {best' : Option Furthest} (h : merge best best' = Option.none) : best = Option.none := by
  unfold merge at h
  split at h
  · rename_i hl
    rw [h] at hl
    cases hl
  · exact h

end Furthest

open Furthest

/-- What is kept of a task: a bare node that has matched at the start may keep that, and nothing else does. -/
def Task.KeepsBeyond (b : Rulebook) (o : Outcome) (leaves : List Furthest) : Task → Prop
  | .node id => Beyond o.best ∨ b.Bare id ∧ leaves ≠ []
  | .items _ _ _ best | .options _ _ best | .rounds _ _ _ _ _ best => Beyond best → Beyond o.best

theorem Course.keepsBeyond {text : Text} {b : Rulebook} {task : Task} {path : Path} {cursor : Cursor} {o : Outcome}
    {leaves : List Furthest} (h : Course text b task path cursor o leaves) : task.KeepsBeyond b o leaves := by
  induction h with
  | hit hn => exact .inr ⟨.leaf hn, List.cons_ne_nil _ _⟩
  | always hn => exact .inr ⟨.always hn, List.cons_ne_nil _ _⟩
  | miss | never => exact .inl .none
  | sequence _ _ ih | choice _ _ ih | times _ _ ih => exact .inl (ih .none)
  | itemsDone | optionsDone => exact id
  | itemsFail | optionsTake => exact fun hb => hb.merge _
  | itemsNext _ _ _ _ ih' | optionsNext _ _ _ _ ih' => exact fun hb => ih' (hb.merge _)
  | roundsFull => exact fun hb => by rwa [Outcome.best_endRounds]
  | roundsFail | roundsStop => exact fun hb => by rw [Outcome.best_endRounds]; exact hb.merge _
  | roundsNext _ _ _ _ _ _ ih' => exact fun hb => ih' (hb.merge _)
  | map hn _ ih => exact ih.imp_right fun ⟨hb, hl⟩ => ⟨.map hn hb, hl⟩
  | chainFail hn _ _ ih => exact ih.imp_right fun ⟨hb, hl⟩ => ⟨.chain hn hb, hl⟩
  | chain hn _ _ _ _ ih _ =>
    rcases ih with hb | ⟨hb, hl⟩
    · left
      rw [Outcome.best_ofStages]
      exact hb.merge _
    · exact .inr ⟨.chain hn hb, fun he => hl (List.append_eq_nil_iff.mp he).1⟩
  | look =>
    left
    rw [Outcome.best_ofLook]
    exact Beyond.none.merge _
  | deferred hn _ ih => exact ih.imp_right fun ⟨hb, hl⟩ => ⟨.deferred hn hb, hl⟩
  | named hn _ ih => exact ih.imp_right fun ⟨hb, hl⟩ => ⟨.named hn hb, hl⟩

theorem Course.of_bare {text : Text} {b : Rulebook} {id : NodeId} (hb : b.Bare id) :
    ∀ {path : Path} {cursor : Cursor} {o : Outcome} {leaves : List Furthest},
      Course text b (.node id) path cursor o leaves → o.best = none → o.value = none ∧ leaves = [] := by
  induction hb with
  | leaf hn =>
    intro path cursor o leaves h ho
    cases h with
    | hit => cases ho
    | miss | never => exact ⟨rfl, rfl⟩
    | _ => simp_all [Node.reader?]
  | always hn =>
    intro path cursor o leaves h ho
    cases h with
    | always => cases ho
    | _ => simp_all [Node.reader?]
  | named hn _ ih =>
    intro path cursor o leaves h ho
    cases h with
    | named hn' h => cases hn.symm.trans hn'; exact ih h ho
    | _ => simp_all [Node.reader?]
  | deferred hn _ ih =>
    intro path cursor o leaves h ho
    cases h with
    | deferred hn' h => cases hn.symm.trans hn'; exact ih h ho
    | _ => simp_all [Node.reader?]
  | map hn _ ih =>
    intro path cursor o leaves h ho
    cases h with
    | map hn' h =>
      cases hn.symm.trans hn'
      obtain ⟨hv, hl⟩ := ih h ho
      exact ⟨congrArg (Option.map _) hv, hl⟩
    | _ => simp_all [Node.reader?]
  | chain hn _ ih =>
    intro path cursor o leaves h ho
    cases h with
    | chainFail hn' h =>
      cases hn.symm.trans hn'
      exact ih h ho
    | chain hn' h hv =>
      cases hn.symm.trans hn'
      rw [Outcome.best_ofStages] at ho
      cases hv.symm.trans (ih h (eq_none_of_merge ho)).1
    | _ => simp_all [Node.reader?]

/-- Nothing is kept when every leaf match ends at the start of the text and is merged on the way up. -/
theorem Course.best_eq_none_iff {text : Text} {b : Rulebook} {id : NodeId} {path : Path} {cursor : Cursor} {o : Outcome}
    {leaves : List Furthest} (c : Course text b (.node id) path cursor o leaves) :
    o.best = none ↔ ∀ leaf ∈ leaves, leaf.offset = 0 ∧ ¬b.Bare id := by
  have hreach := c.reach_eq_reach_ofLeaves
  constructor
  · intro h leaf hl
    rw [Outcome.reach, h] at hreach
    refine ⟨reach_ofLeaves_eq_zero_iff.mp hreach.symm leaf hl, fun hb => ?_⟩
    rw [(c.of_bare hb h).2] at hl
    cases hl
  · intro h
    have hzero : o.reach = 0 := hreach.trans (reach_ofLeaves_eq_zero_iff.mpr fun leaf hl => (h leaf hl).1)
    rcases c.keepsBeyond with hb | ⟨hb, hl⟩
    · exact hb.eq_none hzero
    · obtain ⟨leaf, hl⟩ := List.exists_mem_of_ne_nil _ hl
      exact absurd hb (h leaf hl).2

/-! ## Reports with a drawing -/

section
variable {b : Rulebook} {depth : Nat} {config : Config} {id : NodeId} {text : Text} {failure : Failure} {o : Outcome}

theorem course_of_runWithin (h : (b.runWithin depth id text).result = .ok o) :
    ∃ o' leaves, Course text b (.node id) (Path.root id) (Cursor.start text) o' leaves ∧ o'.best = o.best := by
  obtain ⟨o', ho, he⟩ := Walk.result_bind_eq_ok.mp h
  have hstart : Cursor.ofOffset text 0 = Cursor.start text := by cases text <;> rfl
  rw [Rulebook.matchWithin, hstart] at ho
  obtain ⟨leaves, c⟩ := course_of_matchNode ho
  refine ⟨o', leaves, c, ?_⟩
  split at he <;> cases he <;> rfl

theorem parseWithin_eq_failure (h : (b.runWithin depth id text).result = .ok o) (hv : o.value = none) :
    (b.parseWithin depth config id text true).result = .ok (.error failure) ↔
      (b.failure config id text true o).result = .ok failure := by
  rw [Rulebook.parseWithin, Walk.result_bind_of_ok h, hv]
  constructor
  · intro hp
    obtain ⟨_, hf, he⟩ := Walk.result_bind_eq_ok.mp hp
    cases he
    exact hf
  · intro hf
    exact (Walk.result_bind_of_ok hf _).trans rfl

theorem message_of_failure (h : (b.failure config id text true o).result = .ok failure) :
    ∃ position collapsed drawn, (b.render config id config.indentUnit true (o.best.map fun f => .path f.path)).result =
      .ok drawn ∧ failure.message = Failure.textPart config text o.reach position collapsed ++
        '\n' :: (Failure.headline o.best ++ drawn ++ ['\n']) := by
  rw [Rulebook.failure] at h
  split at h
  · rename_i collapsed position _ _
    obtain ⟨shown, hs, he⟩ := Walk.result_bind_eq_ok.mp h
    cases he
    rw [Rulebook.drawingPart, if_pos rfl] at hs
    obtain ⟨drawn, hd, he⟩ := Walk.result_bind_eq_ok.mp hs
    cases he
    exact ⟨position, collapsed, drawn, hd, rfl⟩
  · cases h

end

/-- The headline above the drawing says that nothing has matched, and nothing is kept, exactly if every leaf match of
the run ends at the start of the text and is merged on the way up. Otherwise it announces the last one, and one is
kept. -/
theorem headline_tells_what_is_kept {b : Rulebook} {depth : Nat} {id : NodeId} {text : Text} {o : Outcome}
    (h : (b.runWithin depth id text).result = .ok o) (hv : o.value = none) :
    ∃ o' leaves headline, (∀ p ls, Course text b (.node id) (Path.root id) (Cursor.start text) p ls ↔
        p = o' ∧ ls = leaves) ∧
      ((headline = "No parser matched:".toList ∧ o.best = none ∧ ∀ leaf ∈ leaves, leaf.offset = 0 ∧ ¬b.Bare id) ∨
        (headline = "Last valid parser matched:".toList ∧ o.best.isSome ∧
          ∃ leaf ∈ leaves, 0 < leaf.offset ∨ b.Bare id)) ∧
      ∀ config, (b.Grounded id → ∃ failure, (b.parseWithin depth config id text true).result = .ok (.error failure)) ∧
        ∀ failure, (b.parseWithin depth config id text true).result = .ok (.error failure) →
          ∃ position collapsed drawn, (b.render config id config.indentUnit true
              (o.best.map fun f => .path f.path)).result = .ok drawn ∧
            failure.message = Failure.textPart config text o.reach position collapsed ++
              '\n' :: (headline ++ drawn ++ ['\n']) := by
  obtain ⟨o', leaves, c, hbest⟩ := course_of_runWithin h
  refine ⟨o', leaves, Failure.headline o.best, fun p ls => ⟨fun c' => c.unique c', ?_⟩, ?_, fun config => ⟨fun hg => ?_,
    fun failure hp => message_of_failure ((parseWithin_eq_failure h hv).mp hp)⟩⟩
  · rintro ⟨rfl, rfl⟩
    exact c
  · rw [Failure.headline, ← hbest]
    cases hb : o'.best with
    | none => exact .inl ⟨rfl, rfl, c.best_eq_none_iff.mp hb⟩
    | some f =>
      refine .inr ⟨rfl, rfl, Classical.byContradiction fun hno => ?_⟩
      have hall : ∀ leaf ∈ leaves, leaf.offset = 0 ∧ ¬b.Bare id := fun leaf hl =>
        ⟨Nat.eq_zero_of_not_pos fun hp => hno ⟨leaf, hl, .inl hp⟩, fun hbare => hno ⟨leaf, hl, .inr hbare⟩⟩
      cases hb.symm.trans (c.best_eq_none_iff.mpr hall)
  · obtain ⟨answer, ha⟩ := (answers_parseWithin h config fun _ => hg).answers
    cases answer with
    | error failure => exact ⟨failure, ha⟩
    | ok value =>
      rw [Rulebook.parseWithin, Walk.result_bind_of_ok h, hv] at ha
      obtain ⟨_, -, he⟩ := Walk.result_bind_eq_ok.mp ha
      cases he

def emptyStarts : Rulebook where
  graph := { nodes := #[.always, .never, .map 0 0, .sequence [0, 1]], mappers := #[id] }

theorem grounded_emptyStarts : emptyStarts.Grounded 2 := by
  intro id _
  match id with
  | 0 | 1 | 2 | 3 | _ + 4 => exact .of_ok rfl

theorem headline_of_emptyStarts : ∃ failure o leaves, (emptyStarts.parseWithin 2 {} 2 ['x'] true).result =
    .ok (.error failure) ∧ Course ['x'] emptyStarts (.node 2) (Path.root 2) (Cursor.start ['x']) o leaves ∧
      leaves = [⟨0, [⟨0, 0⟩, ⟨2, 0⟩]⟩] ∧ ∃ shown drawn,
        failure.message = shown ++ '\n' :: ("Last valid parser matched:".toList ++ drawn ++ ['\n']) := by
  let o : Outcome := ⟨none, Cursor.start ['x'], some ⟨0, [⟨0, 0⟩, ⟨2, 0⟩]⟩⟩
  have hrun : (emptyStarts.runWithin 2 2 ['x']).result = .ok o := by rfl
  obtain ⟨o', leaves, headline, hc, hheadline, hreport⟩ := headline_tells_what_is_kept hrun rfl
  obtain ⟨failure, hp⟩ := (hreport {}).1 grounded_emptyStarts
  obtain ⟨position, collapsed, drawn, -, hm⟩ := (hreport {}).2 failure hp
  obtain ⟨rfl, rfl⟩ := (hc _ _).mp (.map rfl (.always rfl))
  rcases hheadline with ⟨-, hbest, -⟩ | ⟨rfl, -, -⟩
  · cases hbest
  · exact ⟨failure, _, _, hp, .map rfl (.always rfl), rfl, _, drawn, hm⟩

def nothingMatched : Failure where
  message := ("Could not parse: x\n\nInput: x\n       ^ From here (line: 1, column: 1, offset: 0)\n\n" ++
    "No parser matched:\n    SEQ<\n        <SUCCESS>\n        <FAILURE>\n    >\n").toList
  offset := 0
  position := ⟨1, 1⟩

theorem match_of_nothing_is_dropped :
    (emptyStarts.parseWithin 2 {} 3 ['x'] true).result = .ok (.error nothingMatched) ∧
      ∃ o leaves, Course ['x'] emptyStarts (.node 3) (Path.root 3) (Cursor.start ['x']) o leaves ∧ o.best = none ∧
        leaves = [⟨0, [⟨0, 0⟩, ⟨3, 0⟩]⟩] := by
  have hrun : (emptyStarts.runWithin 2 3 ['x']).result = .ok ⟨none, Cursor.start ['x'], none⟩ := by rfl
  have hreport : (emptyStarts.failure {} 3 ['x'] true ⟨none, Cursor.start ['x'], none⟩).result.toOption =
      some nothingMatched := by decide +kernel
  refine ⟨(parseWithin_eq_failure hrun rfl).mpr ?_, _, _,
    .sequence rfl (.itemsNext (.always rfl) rfl (.itemsFail (.never rfl) rfl)), rfl, rfl⟩
  cases hf : (emptyStarts.failure {} 3 ['x'] true ⟨none, Cursor.start ['x'], none⟩).result with
  | error => rw [hf] at hreport; cases hreport
  | ok => rw [hf] at hreport; rw [Option.some.inj hreport]

end FurthestMatch
