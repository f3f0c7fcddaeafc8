import FurthestMatch.Pattern.Reader

/-!
# Patterns inside a group

A pattern that can be read on its own is read alike before a parenthesis that closes, and the reading stops there. Each
reader is compared with itself on a longer text: what it makes of the text it makes of the longer one, with the
parenthesis and what follows it left over.
-/

namespace FurthestMatch

theorem Text.after?_append_of_not_mem {lead : Text} (h : ')' ∉ lead) (rest more : Text) :
    after? lead (rest ++ ')' :: more) = (after? lead rest).map (· ++ ')' :: more) := by
  induction lead generalizing rest with
  | nil => rfl
  | cons a lead ih =>
    have ha : a ≠ ')' := fun he => h (he ▸ List.mem_cons_self)
    cases rest with
    | nil => exact if_neg ha
    | cons c rest =>
      by_cases hc : a = c
      · simp only [after?, List.cons_append, hc, if_true]
        exact ih (fun hm => h (List.mem_cons_of_mem _ hm)) rest
      · simp only [after?, List.cons_append, if_neg hc, Option.map_none]

theorem takeWhile_append_stop {α : Type} {p : α → Bool} {stop : α} (h : p stop = false) (l more : List α) :
    (l ++ stop :: more).takeWhile p = l.takeWhile p := by
  induction l with
  | nil => simp [h]
  | cons a l ih => cases ha : p a <;> simp [ha, ih]

theorem dropWhile_append_stop {α : Type} {p : α → Bool} {stop : α} (h : p stop = false) (l more : List α) :
    (l ++ stop :: more).dropWhile p = l.dropWhile p ++ stop :: more := by
  induction l with
  | nil => simp [h]
  | cons a l ih => cases ha : p a <;> simp [ha, ih]

namespace Pattern

def Reading.within (st : Reading) (more : Text) : Reading :=
  { st with rest := st.rest ++ ')' :: more }

/-- What the first reader makes of a text, the second makes of the text with a closing parenthesis and more behind
it. -/
def Agrees {α : Type} (more : Text) (m m' : Reader α) (st : Reading) : Prop :=
  ∀ a st', m st = .ok (a, st') → m' (st.within more) = .ok (a, st'.within more)

section
variable {α β : Type} {more : Text} {m m' : Reader α} {f f' : α → Reader β} {st : Reading}

theorem bind_eq_ok {b : β} {st'' : Reading} :
    (m >>= f) st = .ok (b, st'') ↔ ∃ a st', m st = .ok (a, st') ∧ f a st' = .ok (b, st'') := by
  show (m st).bind (fun p => f p.1 p.2) = _ ↔ _
  cases m st with
  | error e => simp [Except.bind]
  | ok p => exact ⟨fun h => ⟨p.1, p.2, rfl, h⟩, fun ⟨a, st', he, h⟩ => by cases he; exact h⟩

theorem agrees_pure (a : α) : Agrees more (pure a) (pure a) st := by
  rintro _ _ ⟨⟩
  rfl

theorem agrees_throw {e : PatternError} : Agrees more (throw e) m' st :=
  nofun

theorem Agrees.bind (h : Agrees more m m' st) (hf : ∀ a st', m st = .ok (a, st') → Agrees more (f a) (f' a) st') :
    Agrees more (m >>= f) (m' >>= f') st := by
  intro b st'' hb
  obtain ⟨a, st', hm, ha⟩ := bind_eq_ok.mp hb
  exact bind_eq_ok.mpr ⟨a, _, h a st' hm, hf a st' hm b st'' ha⟩

theorem agrees_get {f f' : Reading → Reader β} (h : Agrees more (f st) (f' (st.within more)) st) :
    Agrees more (get >>= f) (get >>= f') st :=
  h

theorem agrees_modify {g : Reading → Reading} (h : g (st.within more) = (g st).within more) :
    Agrees more (modify g) (modify g) st := by
  rintro _ _ ⟨⟩
  exact congrArg (fun st => Except.ok ((), st)) h

theorem agrees_set (st₀ : Reading) : Agrees more (set st₀) (set (st₀.within more)) st := by
  rintro _ _ ⟨⟩
  rfl

theorem agrees_lift (x : Except PatternError α) : Agrees more (liftM x : Reader α) (liftM x) st := by
  rintro a st' h
  cases x with
  | error e => cases h
  | ok a => cases h; rfl

theorem agrees_ite {c : Prop} [Decidable c] {m₁ m₁' m₂ m₂' : Reader α} (h₁ : Agrees more m₁ m₁' st)
    (h₂ : Agrees more m₂ m₂' st) : Agrees more (if c then m₁ else m₂) (if c then m₁' else m₂') st := by
  split
  · exact h₁
  · exact h₂

end

/-! ## Characters and words -/

section
variable {β : Type} {more : Text} {st : Reading}

theorem agrees_skip {word : String} (h : ')' ∉ word.toList) : Agrees more (skip word) (skip word) st := by
  intro a st' hs
  simp only [skip, Reading.within, Text.after?_append_of_not_mem h] at hs ⊢
  cases hr : Text.after? word.toList st.rest with
  | none => rw [hr] at hs; cases hs; rfl
  | some rest => rw [hr] at hs; cases hs; rfl

theorem skip_eq_true {word : String} {st' : Reading} :
    skip word st = .ok (true, st') ↔ ∃ rest, st.rest = word.toList ++ rest ∧ st' = { st with rest } := by
  simp only [← Text.after?_eq_some_iff]
  unfold skip
  cases Text.after? word.toList st.rest <;> simp [eq_comm]

theorem agrees_next {f f' : Option Char → Reader β} (hn : st.rest = [] → ∃ e, f none = throw e)
    (hc : ∀ c rest, st.rest = c :: rest → Agrees more (f (some c)) (f' (some c)) { st with rest }) :
    Agrees more (next? >>= f) (next? >>= f') st := by
  intro b st'' hb
  obtain ⟨a, st', hm, hb⟩ := bind_eq_ok.mp hb
  cases hr : st.rest with
  | nil =>
    obtain ⟨e, he⟩ := hn hr
    rw [next?, hr] at hm
    cases hm
    rw [he] at hb
    cases hb
  | cons c rest =>
    rw [next?, hr] at hm
    cases hm
    refine bind_eq_ok.mpr ⟨some c, Reading.within { st with rest } more, ?_, hc c rest hr b st'' hb⟩
    simp only [next?, Reading.within, hr, List.cons_append]

theorem agrees_takeUpTo {count count' : Nat} {kind : Char → Bool} (hk : kind ')' = false)
    (hc : (st.rest.takeWhile kind).take count = (st.rest.takeWhile kind).take count') :
    Agrees more (takeUpTo count kind) (takeUpTo count' kind) st := by
  rintro _ _ ⟨⟩
  simp only [takeUpTo, Reading.within, ← List.take_takeWhile, takeWhile_append_stop hk, ← hc]
  rw [List.drop_append_of_le_length]
  exact ((List.take_prefix ..).trans (List.takeWhile_prefix _)).length_le

theorem agrees_takeAll {kind : Char → Bool} (hk : kind ')' = false) :
    Agrees more (takeUpTo st.rest.length kind) (takeUpTo (st.within more).rest.length kind) st := by
  have hl := (List.takeWhile_prefix kind (l := st.rest)).length_le
  refine agrees_takeUpTo hk ?_
  rw [List.take_of_length_le hl, List.take_of_length_le (Nat.le_trans hl (by simp [Reading.within]))]

theorem agrees_setRest (rest : Text) : Agrees more (setRest rest) (setRest (rest ++ ')' :: more)) st := by
  rintro _ _ ⟨⟩
  rfl

theorem agrees_natural : Agrees more natural? natural? st := by
  have h' : Numeral.isDigit ')' = false := by decide
  intro a st' h
  simp only [natural?, Reading.within, takeWhile_append_stop h', dropWhile_append_stop h'] at h ⊢
  cases ht : st.rest.takeWhile Numeral.isDigit with
  | nil => rw [ht] at h; cases h; rfl
  | cons c digits => rw [ht] at h; cases h; rfl

theorem agrees_codePoint (digits : Nat) : Agrees more (codePoint digits) (codePoint digits) st := by
  have hk : (Numeral.digit? 16 ')').isSome = false := by decide
  refine agrees_get ((agrees_takeUpTo hk rfl).bind fun taken st' _ => ?_)
  extract_lets finish
  have known (digits : Text) (st : Reading) : Agrees more (finish digits) (finish digits) st := by
    simp only [finish]
    cases charOfHex? digits with
    | none => exact agrees_throw
    | some c => exact agrees_pure c
  refine agrees_ite (known taken st') ((agrees_setRest _).bind fun _ st' _ => ?_)
  refine (agrees_skip (by decide)).bind fun _ st' _ => agrees_ite ?_ agrees_throw
  refine (agrees_takeUpTo hk rfl).bind fun inner st' _ => (agrees_skip (by decide)).bind fun _ st' _ => ?_
  exact agrees_ite (known inner st') agrees_throw

theorem agrees_readEscape (inClass : Bool) : Agrees more (readEscape inClass) (readEscape inClass) st := by
  refine agrees_get (agrees_next (fun _ => ⟨_, rfl⟩) fun c rest _ => ?_)
  have code (digits : Nat) (st : Reading) : Agrees more (Escape.char <$> codePoint digits)
      (Escape.char <$> codePoint digits) st :=
    (agrees_codePoint digits).bind fun c _ _ => agrees_pure (Escape.char c)
  refine agrees_ite ((agrees_setRest _).bind fun _ st' _ => agrees_natural.bind fun _ _ _ => agrees_pure _) ?_
  extract_lets meaning
  have shared : Agrees more (meaning ()) (meaning ()) { st with rest } := by
    simp only [meaning]
    split
    all_goals first | exact agrees_pure _ | exact code _ _ | exact agrees_ite agrees_throw (agrees_pure _)
  have refused (e : PatternError) (st : Reading) : Agrees more (throw e >>= meaning) (throw e >>= meaning) st :=
    agrees_throw.bind fun _ _ h => nomatch h
  refine agrees_ite ?_ shared
  split
  · exact agrees_pure _
  · exact agrees_pure _
  · exact (agrees_skip (by decide)).bind fun _ st _ => agrees_ite (refused _ st) (agrees_pure _)
  · exact agrees_pure _
  · exact refused _ _
  · exact refused _ _
  · exact shared

theorem agrees_readClassElement : Agrees more readClassElement readClassElement st := by
  refine agrees_next (fun _ => ⟨_, rfl⟩) fun c rest _ => ?_
  split
  · contradiction
  · refine (agrees_readEscape true).bind fun escape _ _ => ?_
    cases escape with
    | char c => exact agrees_pure _
    | set s => exact agrees_pure _
    | anchor a => exact agrees_throw
    | again n => exact agrees_throw
  · exact agrees_pure _

/-! ## Classes -/

theorem agrees_readNamedClass (ignoreCase : Bool) {table : List (String × List (Char × Char))}
    (h : ∀ entry ∈ table, ')' ∉ entry.1.toList) :
    Agrees more (readNamedClass? ignoreCase table) (readNamedClass? ignoreCase table) st := by
  induction table generalizing st with
  | nil => exact agrees_pure _
  | cons entry table ih =>
    obtain ⟨hname, htable⟩ := List.forall_mem_cons.mp h
    refine (agrees_skip (by simp [hname])).bind fun _ st _ => agrees_ite (agrees_pure _) ?_
    exact (agrees_skip (by simp [hname])).bind fun _ st _ => agrees_ite (agrees_pure _) (ih htable)

theorem agrees_readOperation : Agrees more readOperation? readOperation? st := by
  refine (agrees_skip (by decide)).bind fun _ st _ => agrees_ite (agrees_pure _) ?_
  refine (agrees_skip (by decide)).bind fun _ st _ => agrees_ite (agrees_pure _) ?_
  exact (agrees_skip (by decide)).bind fun _ st _ => agrees_ite (agrees_pure _) (agrees_pure _)

theorem agrees_readFirst (nested : Bool) : Agrees more (readFirst nested) (readFirst nested) st := by
  refine agrees_get ((agrees_takeAll (by decide)).bind fun hyphens st _ => agrees_ite (agrees_pure _) ?_)
  refine (agrees_skip (by decide)).bind fun bracket st _ => agrees_ite ?_ (agrees_pure _)
  exact agrees_ite agrees_throw (agrees_pure _)

theorem agrees_readMember : Agrees more readMember readMember st := by
  refine agrees_get (agrees_readClassElement.bind fun low st _ => agrees_get ?_)
  split
  · exact agrees_throw
  · rename_i d tail hr
    have hr' : (st.within more).rest = '-' :: d :: (tail ++ ')' :: more) := by rw [Reading.within, hr]; rfl
    simp only [hr']
    refine agrees_ite (agrees_pure _) ((agrees_skip (by decide)).bind fun _ st _ => ?_)
    refine agrees_readClassElement.bind fun high st _ => ?_
    split
    · exact agrees_ite (agrees_pure _) agrees_throw
    · exact agrees_throw
  · rename_i hlast hmore
    -- the next character is no hyphen, and so it is none in the longer text
    have hnext (tail : Text) : (st.within more).rest ≠ '-' :: tail := by
      intro ht
      rcases hs : st.rest with _ | ⟨c, _ | ⟨d, rest⟩⟩
      · rw [Reading.within, hs] at ht; cases ht
      · rw [Reading.within, hs] at ht; cases ht; exact hlast hs
      · rw [Reading.within, hs] at ht; cases ht; exact hmore _ _ hs
    split
    · exact absurd ‹_› (hnext _)
    · exact absurd ‹_› (hnext _)
    · exact agrees_pure _

theorem agrees_readMembers : ∀ {fuel fuel' : Nat} (_ : fuel ≤ fuel') (before : CharSet → CharSet) (acc : CharSet)
    (st : Reading), Agrees more (readMembers fuel before acc) (readMembers fuel' before acc) st
  | 0, _, _, _, _, _ => agrees_throw
  | fuel + 1, fuel' + 1, hf, before, acc, st => by
    have ih := agrees_readMembers (Nat.le_of_succ_le_succ hf)
    rw [readMembers, readMembers]
    refine (agrees_skip (by decide)).bind fun _ st _ => agrees_ite (agrees_pure _) ?_
    refine (agrees_skip (by decide)).bind fun _ st _ => agrees_ite ?_ ?_
    · refine agrees_get ((agrees_readNamedClass _ (by decide)).bind fun set st _ => ?_)
      cases set with
      | some set => exact ih _ _ st
      | none =>
        refine (agrees_skip (by decide)).bind fun negated st _ => (agrees_readFirst true).bind fun first st _ => ?_
        exact (ih _ _ _).bind fun inner st _ => ih _ _ st
    · refine agrees_readOperation.bind fun operation st _ => ?_
      cases operation with
      | some operation => exact ih _ _ st
      | none => exact agrees_readMember.bind fun member st _ => ih _ _ st

theorem agrees_readClass : Agrees more readClass readClass st := by
  refine (agrees_skip (by decide)).bind fun negated st _ => (agrees_readFirst false).bind fun first st _ => ?_
  refine agrees_get ((agrees_readMembers ?_ _ _ _).bind fun inner st _ => agrees_pure _)
  simp [Reading.within]

/-! ## Counts -/

def Returns {α : Type} (m : Reader α) : Prop :=
  ∀ st, ∃ a st', m st = .ok (a, st')

theorem returns_pure {α : Type} (a : α) : Returns (pure a) :=
  fun st => ⟨a, st, rfl⟩

theorem Returns.bind {α : Type} {m : Reader α} {f : α → Reader β} (h : Returns m) (hf : ∀ a, Returns (f a)) :
    Returns (m >>= f) := by
  intro st
  obtain ⟨a, st', hm⟩ := h st
  obtain ⟨b, st'', hb⟩ := hf a st'
  exact ⟨b, st'', bind_eq_ok.mpr ⟨a, st', hm, hb⟩⟩

theorem returns_skip (word : String) : Returns (skip word) := by
  intro st
  unfold skip
  split
  · exact ⟨_, _, rfl⟩
  · exact ⟨_, _, rfl⟩

theorem returns_natural : Returns natural? := by
  intro st
  unfold natural?
  split
  · exact ⟨_, _, rfl⟩
  · exact ⟨_, _, rfl⟩

theorem agrees_readBounds : Agrees more readBounds? readBounds? st := by
  intro a st'
  unfold readBounds?
  extract_lets bounds
  have agrees : Agrees more bounds bounds st := by
    refine agrees_natural.bind fun least st _ => (agrees_skip (by decide)).bind fun comma st _ => ?_
    extract_lets finish
    have finishes (most : Option Nat) (st : Reading) : Agrees more (finish most) (finish most) st := by
      refine (agrees_skip (by decide)).bind fun _ st _ => agrees_ite (agrees_pure _) ?_
      cases least <;> cases comma <;> exact agrees_pure _
    exact agrees_ite (agrees_natural.bind fun most st _ => finishes most st) (finishes none st)
  have returns : Returns bounds := by
    refine returns_natural.bind fun least => (returns_skip _).bind fun comma => ?_
    extract_lets finish
    have finishes (most : Option Nat) : Returns (finish most) := by
      refine (returns_skip _).bind fun closed => ?_
      cases closed with
      | false => exact returns_pure _
      | true => cases least <;> cases comma <;> exact returns_pure _
    cases comma with
    | true => exact returns_natural.bind finishes
    | false => exact finishes none
  obtain ⟨found, st'', hb⟩ := returns st
  intro h
  rw [hb] at h
  rw [agrees found st'' hb]
  cases found with
  | none => cases h; rfl
  | some b => cases h; rfl

theorem agrees_readCount : Agrees more readCount? readCount? st := by
  refine (agrees_skip (by decide)).bind fun _ st _ => agrees_ite (agrees_pure _) ?_
  refine (agrees_skip (by decide)).bind fun _ st _ => agrees_ite (agrees_pure _) ?_
  refine (agrees_skip (by decide)).bind fun _ st _ => agrees_ite (agrees_pure _) (agrees_get ?_)
  refine (agrees_skip (by decide)).bind fun _ st' _ => agrees_ite (agrees_readBounds.bind fun bounds st'' _ => ?_) ?_
  · cases bounds with
    | some b => exact agrees_pure _
    | none => exact (agrees_setRest _).bind fun _ _ _ => agrees_pure _
  · exact agrees_pure _

theorem agrees_withCount (part : Part) : Agrees more (withCount part) (withCount part) st := by
  refine agrees_readCount.bind fun count st _ => ?_
  cases count with
  | none => exact agrees_pure _
  | some bounds =>
    refine agrees_ite agrees_throw (agrees_ite agrees_throw ?_)
    refine (agrees_skip (by decide)).bind fun fewer st _ => agrees_get ?_
    exact (agrees_skip (by decide)).bind fun _ _ _ => agrees_ite (agrees_pure _) (agrees_pure _)

/-! ## Groups -/

theorem agrees_readName : Agrees more readName readName st := by
  have hk : isWord ')' = false := by decide +kernel
  refine agrees_get ((agrees_takeAll hk).bind fun name st _ => (agrees_skip (by decide)).bind fun _ st _ => ?_)
  exact agrees_ite agrees_throw (agrees_modify rfl)

theorem agrees_readFlags : ∀ {fuel fuel' : Nat} (_ : fuel ≤ fuel') (off any : Bool) (st : Reading),
    Agrees more (readFlags fuel off any) (readFlags fuel' off any) st
  | 0, _, _, _, _, _ => agrees_throw
  | fuel + 1, fuel' + 1, hf, off, any, st => by
    have ih := agrees_readFlags (Nat.le_of_succ_le_succ hf)
    rw [readFlags, readFlags]
    refine agrees_next (fun _ => ⟨_, rfl⟩) fun c rest _ => ?_
    split
    · exact agrees_pure _
    · exact agrees_ite (agrees_pure _) agrees_throw
    · exact agrees_ite agrees_throw (ih _ _ _)
    · exact (agrees_modify rfl).bind fun _ st _ => ih _ _ st
    · exact (agrees_modify rfl).bind fun _ st _ => ih _ _ st
    · exact (agrees_modify rfl).bind fun _ st _ => ih _ _ st
    · exact (agrees_modify rfl).bind fun _ st _ => ih _ _ st
    · exact agrees_ite agrees_throw (ih _ _ _)
    · exact agrees_throw
    · contradiction

end

/-! ## Expressions -/

section
variable {more : Text} {fuel fuel' : Nat} {st : Reading}

structure AgreeTo (more : Text) (fuel fuel' : Nat) : Prop where
  alternatives : ∀ st, Agrees more (readAlternatives fuel) (readAlternatives fuel') st
  further : ∀ st, Agrees more (readMore fuel) (readMore fuel') st
  row : ∀ done st, Agrees more (readRow fuel done) (readRow fuel' done) st
  atom : ∀ st, st.rest ≠ [] → Agrees more (readAtom fuel) (readAtom fuel') st
  group : ∀ st, Agrees more (readGroup fuel) (readGroup fuel') st
  numbered : ∀ st, Agrees more (readNumbered fuel) (readNumbered fuel') st
  closed : ∀ st, Agrees more (readClosed fuel) (readClosed fuel') st

theorem agreeTo_zero : AgreeTo more 0 fuel' where
  alternatives _ := agrees_throw
  further _ := agrees_throw
  row _ _ := agrees_throw
  atom _ _ := agrees_throw
  group _ := agrees_throw
  numbered _ := agrees_throw
  closed _ := agrees_throw

section
variable (h : AgreeTo more fuel fuel')
include h

theorem agrees_readAlternatives : Agrees more (readAlternatives (fuel + 1)) (readAlternatives (fuel' + 1)) st := by
  rw [readAlternatives, readAlternatives]
  refine (h.row [] st).bind fun first st _ => (h.further st).bind fun parts st _ => agrees_get ?_
  exact agrees_ite agrees_throw (agrees_pure _)

theorem agrees_readMore : Agrees more (readMore (fuel + 1)) (readMore (fuel' + 1)) st := by
  rw [readMore, readMore]
  refine (agrees_skip (by decide)).bind fun _ st _ => agrees_ite ?_ (agrees_pure _)
  exact (h.row [] st).bind fun part st _ => (h.further st).bind fun parts st _ => agrees_pure _

theorem agrees_readRow (done : List Part) : Agrees more (readRow (fuel + 1) done) (readRow (fuel' + 1) done) st := by
  rw [readRow, readRow]
  refine agrees_get ?_
  have hw : (st.within more).rest = st.rest ++ ')' :: more := rfl
  split
  · rename_i hr
    simp only [hw, hr, List.nil_append]
    exact agrees_pure _
  · rename_i hr
    simp only [hw, hr, List.cons_append]
    exact agrees_pure _
  · rename_i hr
    simp only [hw, hr, List.cons_append]
    exact agrees_pure _
  · rename_i hnil hbar hclose
    obtain ⟨c, rest, hr⟩ := List.exists_cons_of_ne_nil hnil
    rw [hr, List.cons_append] at hw
    split
    · rename_i he; cases hw.symm.trans he
    · rename_i he; cases hw.symm.trans he; exact absurd hr (hbar _)
    · rename_i he; cases hw.symm.trans he; exact absurd hr (hclose _)
    · refine (h.atom st hnil).bind fun part st _ => (agrees_withCount part).bind fun counted st _ => ?_
      exact h.row _ st

theorem agrees_readAtom (hr : st.rest ≠ []) : Agrees more (readAtom (fuel + 1)) (readAtom (fuel' + 1)) st := by
  rw [readAtom, readAtom]
  refine agrees_get (agrees_next (fun he => absurd he hr) fun c rest hc => ?_)
  split
  · contradiction
  · exact agrees_pure _
  · exact agrees_pure _
  · exact agrees_pure _
  · exact h.group _
  · exact agrees_readClass.bind fun _ _ _ => agrees_pure _
  · refine (agrees_readEscape false).bind fun escape _ _ => ?_
    cases escape with
    | char c => exact agrees_pure _
    | set s => exact agrees_pure _
    | anchor a => exact agrees_pure _
    | again n => exact agrees_ite ((agrees_modify rfl).bind fun _ _ _ => agrees_pure _) agrees_throw
  · exact agrees_ite ((agrees_set st).bind fun _ _ _ => agrees_pure _) (agrees_pure _)

theorem agrees_readGroup (hf : fuel ≤ fuel') : Agrees more (readGroup (fuel + 1)) (readGroup (fuel' + 1)) st := by
  rw [readGroup, readGroup]
  have closed {f : Part → Reader Part} (hc : ∀ r st, Agrees more (f r) (f r) st) (st : Reading) :
      Agrees more (readClosed fuel >>= f) (readClosed fuel' >>= f) st :=
    (h.closed st).bind fun r st _ => hc r st
  refine (agrees_skip (by decide)).bind fun _ st _ => agrees_ite (closed (fun _ _ => agrees_pure _) st) ?_
  refine (agrees_skip (by decide)).bind fun _ st _ => agrees_ite (closed (fun _ _ => agrees_pure _) st) ?_
  refine (agrees_skip (by decide)).bind fun _ st _ => agrees_ite
    (closed (fun _ _ => (agrees_lift _).bind fun _ _ _ => agrees_pure _) st) ?_
  refine (agrees_skip (by decide)).bind fun _ st _ => agrees_ite
    (closed (fun _ _ => (agrees_lift _).bind fun _ _ _ => agrees_pure _) st) ?_
  refine (agrees_skip (by decide)).bind fun _ st _ => agrees_ite (closed (fun _ _ => agrees_pure _) st) ?_
  refine (agrees_skip (by decide)).bind fun _ st _ => ?_
  extract_lets unnamed unnamed'
  have rest (isNamed : Bool) (st : Reading) : Agrees more (unnamed isNamed) (unnamed' isNamed) st := by
    refine agrees_ite (agrees_readName.bind fun _ st _ => h.numbered st) ?_
    refine (agrees_skip (by decide)).bind fun _ st _ => agrees_ite (agrees_get ?_) (h.numbered st)
    refine (agrees_readFlags hf _ _ st).bind fun _ st _ => agrees_ite ?_ (agrees_pure _)
    exact closed (fun _ _ => (agrees_modify rfl).bind fun _ _ _ => agrees_pure _) st
  exact agrees_ite (rest true st) ((agrees_skip (by decide)).bind fun isNamed st _ => rest isNamed st)

theorem agrees_readNumbered : Agrees more (readNumbered (fuel + 1)) (readNumbered (fuel' + 1)) st := by
  rw [readNumbered, readNumbered]
  refine agrees_get ((agrees_modify rfl).bind fun _ st _ => (h.closed st).bind fun r st _ => agrees_pure _)

theorem agrees_readClosed : Agrees more (readClosed (fuel + 1)) (readClosed (fuel' + 1)) st := by
  rw [readClosed, readClosed]
  refine (h.alternatives st).bind fun r st _ => ?_
  intro a st' hc
  obtain ⟨closed, st'', hs, hc⟩ := bind_eq_ok.mp hc
  cases closed with
  | false => cases hc
  | true =>
    cases hc
    obtain ⟨rest, hr, rfl⟩ := skip_eq_true.mp hs
    refine bind_eq_ok.mpr ⟨true, _, skip_eq_true.mpr ⟨rest ++ ')' :: more, ?_, rfl⟩, rfl⟩
    rw [Reading.within, hr, List.append_assoc]

end

theorem agreeTo : ∀ {fuel fuel' : Nat}, fuel ≤ fuel' → AgreeTo more fuel fuel'
  | 0, _, _ => agreeTo_zero
  | _ + 1, _ + 1, hf =>
    have h := agreeTo (Nat.le_of_succ_le_succ hf)
    { alternatives _ := agrees_readAlternatives h
      further _ := agrees_readMore h
      row done _ := agrees_readRow h done
      atom _ := agrees_readAtom h
      group _ := agrees_readGroup h (Nat.le_of_succ_le_succ hf)
      numbered _ := agrees_readNumbered h
      closed _ := agrees_readClosed h }

end

end Pattern
end FurthestMatch
