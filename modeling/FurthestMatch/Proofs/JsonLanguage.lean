import FurthestMatch.Catalogue.JsonText
import FurthestMatch.Proofs.Fields
import FurthestMatch.Proofs.Leaves

/-!
# The language of JSON texts

`Json` says which texts are JSON values and what they denote, without a word about how they are read; `Written` says
only which texts they are. The reader of the grammar, unrolled as deep as a text is long, reads exactly that: it is
sound, and complete before whatever may follow a value inside another one.
-/

namespace FurthestMatch.JsonText

open Regex (Opening Around Closing StopsAt StartsWith)

inductive Field {α : Type} (L : Text → α → Prop) : Text → String × α → Prop
  | mk {body c t v} (hk : QuotedBody body) (hc : Around ':' c) (h : L t v) :
      Field L (inQuotes body ++ (c ++ t)) (String.ofList body, v)

/-- The texts of JSON values, each with the value that it denotes. -/
inductive Json : Text → Value → Prop
  | string {body} (h : QuotedBody body) : Json (inQuotes body) (.str (String.ofList body))
  | number {t x} (h : Numeral.IsExponential t) (hx : Numeral.float? t = some x) : Json t (.float x)
  | object {o t c fields members} (ho : Opening '\x7b' o) (h : Rows (Around ',') (Field Json) t fields)
      (hc : Closing '\x7d' c) (hm : Value.Gathers fields members) : Json (o ++ (t ++ c)) (.object members)
  | array {o t c vs} (ho : Opening '[' o) (h : Rows (Around ',') Json t vs) (hc : Closing ']' c) :
      Json (o ++ (t ++ c)) (.list vs)
  | true : Json "true".toList (.bool true)
  | false : Json "false".toList (.bool false)
  | null : Json "null".toList .null

/-- The texts of JSON values, whatever these denote. -/
inductive Written : Text → Unit → Prop
  | string {body} (h : QuotedBody body) : Written (inQuotes body) ()
  | number {t} (h : Numeral.IsExponential t) : Written t ()
  | object {o t c fields} (ho : Opening '\x7b' o) (h : Rows (Around ',') (Field Written) t fields)
      (hc : Closing '\x7d' c) : Written (o ++ (t ++ c)) ()
  | array {o t c units} (ho : Opening '[' o) (h : Rows (Around ',') Written t units) (hc : Closing ']' c) :
      Written (o ++ (t ++ c)) ()
  | true : Written "true".toList ()
  | false : Written "false".toList ()
  | null : Written "null".toList ()

theorem Field.lift {α β : Type} {L : Text → α → Prop} {M : Text → β → Prop} {u : Text} {field : String × α}
    (h : Field L u field) (hL : ∀ t a, t.length ≤ u.length → L t a → ∃ b, M t b) : ∃ field', Field M u field' := by
  obtain ⟨hk, hc, h⟩ := h
  obtain ⟨b, hb⟩ := hL _ _ (by simp only [List.length_append]; omega) h
  exact ⟨_, .mk hk hc hb⟩

theorem Json.written {t : Text} {v : Value} (h : Json t v) : Written t () := by
  cases h with
  | string h => exact .string h
  | number h => exact .number h
  | @object o t c _ _ ho h hc =>
    have hl := ho.length_lt t c
    obtain ⟨_, hr⟩ := h.lift fun u field hu hf => hf.lift fun w v hw hv => ⟨(), hv.written⟩
    exact .object ho hr hc
  | @array o t c _ ho h hc =>
    have hl := ho.length_lt t c
    obtain ⟨_, hr⟩ := h.lift fun u v hu hv => ⟨(), hv.written⟩
    exact .array ho hr hc
  | true => exact .true
  | false => exact .false
  | null => exact .null
termination_by t.length
decreasing_by all_goals
  simp only [List.length_append] at hl ⊢
  omega

/-- Every text of a value denotes one: its numbers are floats, and its fields make an object. -/
theorem Written.json {t : Text} {a : Unit} (h : Written t a) : ∃ v, Json t v := by
  cases h with
  | string h => exact ⟨_, .string h⟩
  | number h =>
    obtain ⟨x, hx⟩ := Numeral.float?_of_isExponential h
    exact ⟨_, .number h hx⟩
  | @object o t c _ ho h hc =>
    have hl := ho.length_lt t c
    obtain ⟨fields, hr⟩ := h.lift fun u field hu hf => hf.lift fun w a hw ha => ha.json
    obtain ⟨members, -, hm⟩ := Value.exists_gathers fields
    exact ⟨_, .object ho hr hc hm⟩
  | @array o t c _ ho h hc =>
    have hl := ho.length_lt t c
    obtain ⟨_, hr⟩ := h.lift fun u a hu ha => ha.json
    exact ⟨_, .array ho hr hc⟩
  | true => exact ⟨_, .true⟩
  | false => exact ⟨_, .false⟩
  | null => exact ⟨_, .null⟩
termination_by t.length
decreasing_by all_goals
  simp only [List.length_append] at hl ⊢
  omega

theorem exists_json {t : Text} : (∃ v, Json t v) ↔ Written t () :=
  ⟨fun ⟨_, h⟩ => h.written, Written.json⟩

/-! ## Readers -/

def comma : Reader :=
  .pattern r"\s*,\s*" .whole

def pairReader (value : Reader) : Reader :=
  .map pairOf (.sequence [Leaf.doubleQuoted.reader, .pattern r"\s*:\s*" .whole, value])

def objectReader (value : Reader) : Reader :=
  .map objectOf (.sequence [.pattern "\\\x7b\\s*" .whole, .sepBy (pairReader value) comma,
    .sequence [Leaf.whitespaceOpt.reader, .literal "\x7d"]])

def arrayReader (value : Reader) : Reader :=
  .map (·.nth 1) (.sequence [.pattern r"\[\s*" .whole, .sepBy value comma, .pattern r"\s*\]" .whole])

def options (value : Reader) : List Reader :=
  [Leaf.doubleQuoted.reader, Leaf.exponential.reader, objectReader value, arrayReader value,
    .map (fun _ => .bool true) (.literal "true"),
    .map (fun _ => .bool false) (.literal "false"),
    .map (fun _ => .null) (.literal "null")]

def value : (depth : Nat) → Reader
  | 0 => fun _ => none
  | depth + 1 => .choice (options (value depth))

/-! ## Where values start and end -/

def Delimited (rest : Text) : Prop :=
  ∀ c ∈ rest.head?, isBlank c ∨ c ∈ [',', ']', '\x7d']

def Opens (c : Char) : Prop :=
  isBlank c = false ∧ c ∉ [',', ']', '\x7d']

instance : DecidablePred Opens := fun c =>
  inferInstanceAs (Decidable (isBlank c = false ∧ c ∉ [',', ']', '\x7d']))

theorem opens_of_isStart {c : Char} (h : Numeral.IsStart c) : Opens c := by
  have hm : ∀ d ∈ ['0', '1', '2', '3', '4', '5', '6', '7', '8', '9', '.', '-', '+'], Opens d :=
    List.all_iff_forall_prop.mp (by decide)
  exact hm c h.mem

theorem Delimited.not_opens {rest : Text} (h : Delimited rest) : ∀ c ∈ rest.head?, ¬Opens c := by
  intro c hc ho
  rcases h c hc with hb | hm
  · exact absurd hb (by simp [ho.1])
  · exact ho.2 hm

theorem Delimited.ends {rest : Text} (h : Delimited rest) :
    Regex.EndsNumber rest ∧ StopsAt (Regex.oneOf 'e' 'E') rest := by
  have stops : ∀ s : CharSet, (∀ c, s.contains c = true → Opens c) → StopsAt s rest := by
    intro s hs c hc
    refine Bool.eq_false_iff.mpr fun hm => h.not_opens c hc (hs c hm)
  refine ⟨⟨stops _ fun c hc => ?_, stops _ fun c hc => ?_⟩, stops _ fun c hc => ?_⟩
  · exact opens_of_isStart (.inl (.inl (Regex.contains_digits.symm.trans hc)))
  · exact opens_of_isStart (.inl (.inr (Regex.contains_single.mp hc)))
  · rcases Regex.contains_oneOf.mp hc with rfl | rfl <;> decide

theorem delimited_append {w rest : Text} {c : Char} (hw : Blanks w) (hc : c ∈ [',', ']', '\x7d']) :
    Delimited (w ++ c :: rest) := by
  cases w with
  | nil =>
    rintro _ ⟨⟩
    exact .inr hc
  | cons d w =>
    rintro _ ⟨⟩
    exact .inl (hw d List.mem_cons_self)

theorem delimited_separator {s rest : Text} (h : Around ',' s) : Delimited (s ++ rest) := by
  obtain ⟨w, w', hw, -, rfl⟩ := h
  rw [List.append_assoc]
  exact delimited_append hw (by decide)

theorem Json.starts {t : Text} {v : Value} (h : Json t v) : StartsWith Opens t := by
  cases h with
  | string => exact ⟨'"', _, rfl, by decide⟩
  | number h =>
    obtain ⟨c, u, rfl, hc⟩ := h.starts
    exact ⟨c, u, rfl, opens_of_isStart hc⟩
  | object ho =>
    obtain ⟨w, -, rfl⟩ := ho
    exact ⟨'\x7b', _, rfl, by decide⟩
  | array ho =>
    obtain ⟨w, -, rfl⟩ := ho
    exact ⟨'[', _, rfl, by decide⟩
  | true => exact ⟨'t', _, rfl, by decide⟩
  | false => exact ⟨'f', _, rfl, by decide⟩
  | null => exact ⟨'n', _, rfl, by decide⟩

/-! ## Rows in brackets -/

def Enclosed {α : Type} (a b : Char) (L : Text → α → Prop) (l : Text) (as : List α) : Prop :=
  ∃ o t c, Opening a o ∧ Rows (Around ',') L t as ∧ Closing b c ∧ l = o ++ (t ++ c)

theorem readAs_comma : Pattern.ReadAs r"\s*,\s*" (.seq .blanks (.seq (.char ',') .blanks)) 0 := by
  decide +kernel

theorem sound_comma : comma.Sound fun l _ => Around ',' l :=
  Reader.sound_around readAs_comma

theorem skips_comma : comma.Skips (Around ',') (StopsAt .blank) :=
  Reader.skips_pattern readAs_comma (Regex.takes_around (by decide))

theorem comma_none {b : Char} {c : Text} (hb : isBlank b = false) (hne : b ≠ ',') (hc : Closing b c) (rest : Text) :
    comma (c ++ rest) = none := by
  cases hcm : comma (c ++ rest) with
  | none => rfl
  | some found =>
    obtain ⟨s, hs, ⟨w', w'', hw', -, rfl⟩⟩ := sound_comma _ found.1 found.2 hcm
    obtain ⟨w, hw, rfl⟩ := hc
    rw [List.append_assoc, List.append_assoc] at hs
    have hw : Regex.AllIn .blank w := hw
    have hstop : StopsAt .blank (b :: ([] ++ rest)) := Regex.stopsAt_cons hb
    have hstop' : StopsAt .blank (',' :: w'' ++ found.2) := Regex.stopsAt_cons (by decide)
    have he := Regex.eq_of_append_eq hw hw' hstop hstop' hs
    exact absurd (List.cons.inj he.2).1 hne

section
variable {item op cl : Reader} {L : Text → Value → Prop} {a b : Char} {f : Value → Value} {g : List Value → Value}

theorem sound_enclosed (hop : op.Sound fun l _ => Opening a l) (hitem : item.Sound L)
    (hcl : cl.Sound fun l _ => Closing b l) (hf : ∀ x vs y, f (.list [x, .list vs, y]) = g vs) :
    (Reader.map f (.sequence [op, .sepBy item comma, cl])).Sound fun l v => ∃ vs, Enclosed a b L l vs ∧ v = g vs := by
  intro t v rest h
  obtain ⟨_, _ | ⟨hx, _ | ⟨hw, _ | ⟨hy, ⟨⟩⟩⟩⟩, rfl⟩ := Reader.map_sequence_eq_some.mp h
  obtain ⟨o, rfl, ho⟩ := hop _ _ _ hx
  obtain ⟨u, rfl, vs, hu, rfl⟩ := Reader.sound_sepBy hitem sound_comma _ _ _ hw
  obtain ⟨c, rfl, hc⟩ := hcl _ _ _ hy
  exact ⟨o ++ (u ++ c), by simp only [List.append_assoc], vs, ⟨o, u, c, ho, hu, hc, rfl⟩, hf _ vs _⟩

/-- Blanks between brackets with nothing else between them may all stand after the opening one. -/
theorem Enclosed.normal {α : Type} {L : Text → α → Prop} {l : Text} {as : List α} (h : Enclosed a b L l as)
    (hL : ∀ u v, L u v → StartsWith Opens u) (hb : isBlank b = false) : ∃ o t c, Opening a o ∧
      Rows (Around ',') L t as ∧ Closing b c ∧ l = o ++ (t ++ c) ∧ ∀ rest, StopsAt .blank (t ++ c ++ rest) := by
  obtain ⟨o, t, c, ho, hr, hc, rfl⟩ := h
  cases hr with
  | none =>
    obtain ⟨w, hw, rfl⟩ := ho
    obtain ⟨w', hw', rfl⟩ := hc
    refine ⟨a :: (w ++ w'), [], [b], ⟨w ++ w', ?_, rfl⟩, .none, ⟨[], nofun, rfl⟩, by simp, fun rest => ?_⟩
    · exact fun d hd => (List.mem_append.mp hd).elim (hw d) (hw' d)
    · exact Regex.stopsAt_cons hb
  | some hr =>
    refine ⟨o, t, c, ho, .some hr, hc, rfl, fun rest => ?_⟩
    obtain ⟨u, v, u', as', hu, -, rfl, -⟩ := row_iff.mp hr
    rw [List.append_assoc, List.append_assoc]
    exact (hL u v hu).stopsAt (fun _ => And.left) _

theorem complete_enclosed (hop : op.Skips (Opening a) (StopsAt .blank)) (hitem : item.Complete L Delimited)
    (hnone : ∀ rest, Delimited rest → item rest = none) (hcl : cl.Skips (Closing b) fun _ => True)
    (hL : ∀ u v, L u v → StartsWith Opens u) (hb : b ∈ [']', '\x7d'])
    (hf : ∀ x vs y, f (.list [x, .list vs, y]) = g vs) :
    (Reader.map f (.sequence [op, .sepBy item comma, cl])).Complete
      (fun l v => ∃ vs, Enclosed a b L l vs ∧ v = g vs) fun _ => True := by
  have hbb : isBlank b = false ∧ b ≠ ',' ∧ b ∈ [',', ']', '\x7d'] := by
    rcases List.mem_cons.mp hb with rfl | hb
    · decide
    · rw [List.mem_singleton.mp hb]
      decide
  have hne : ∀ v, ¬L [] v := fun v hv => by
    obtain ⟨_, _, he, -⟩ := hL [] v hv
    cases he
  have hstop : ∀ u v rest, L u v → StopsAt .blank (u ++ rest) :=
    fun u v rest hu => (hL u v hu).stopsAt (fun _ => And.left) rest
  rintro l _ rest ⟨vs, he, rfl⟩ -
  obtain ⟨o, t, c, ho, hr, hc, rfl, hblank⟩ := he.normal hL hbb.1
  have hdel : Delimited (c ++ rest) := by
    obtain ⟨w, hw, rfl⟩ := hc
    rw [List.append_assoc]
    exact delimited_append hw hbb.2.2
  have hrow := Reader.complete_sepBy hitem skips_comma hstop (fun s rest hs => delimited_separator hs) hne t _ (c ++ rest)
    ⟨vs, hr, rfl⟩ ⟨hdel, hnone _ hdel, comma_none hbb.1 hbb.2.1 hc rest⟩
  obtain ⟨x, hx⟩ := hop o (t ++ c ++ rest) ho (hblank rest)
  obtain ⟨y, hy⟩ := hcl c rest hc trivial
  rw [List.append_assoc] at hx
  rw [← hf x vs y, List.append_assoc, List.append_assoc]
  exact Reader.map_sequence_eq_some.mpr ⟨_, .cons hx (.cons hrow (.cons hy .nil)), rfl⟩

end

/-! ## Objects and arrays -/

def pairValue (field : String × Value) : Value :=
  .list [.str field.1, field.2]

theorem ofPairs_pairValue (fields : List (String × Value)) :
    Value.ofPairs (fields.map pairValue) = Value.ofFields fields := by
  have hpairs : (fields.map pairValue).filterMap (fun pair => (pair.nth 0).text?.map fun key => (key, pair.nth 1)) =
      fields := by
    rw [List.filterMap_map]
    exact List.filterMap_some
  exact congrArg Value.ofFields hpairs

theorem readAs_colon : Pattern.ReadAs r"\s*:\s*" (.seq .blanks (.seq (.char ':') .blanks)) 0 := by
  decide +kernel

theorem readAs_openBrace : Pattern.ReadAs "\\\x7b\\s*" (.seq (.char '\x7b') .blanks) 0 := by
  decide +kernel

theorem readAs_openBracket : Pattern.ReadAs r"\[\s*" (.seq (.char '[') .blanks) 0 := by
  decide +kernel

theorem readAs_closeBracket : Pattern.ReadAs r"\s*\]" (.seq .blanks (.char ']')) 0 := by
  decide +kernel

theorem Field.starts {L : Text → Value → Prop} {u : Text} {field : String × Value} (h : Field L u field) :
    ∃ t, u = '"' :: t := by
  obtain ⟨-, -, -⟩ := h
  exact ⟨_, rfl⟩

theorem Field.mono {L L' : Text → Value → Prop} {u : Text} {field : String × Value} (h : Field L u field)
    (hL : ∀ t v, t.length ≤ u.length → L t v → L' t v) : Field L' u field := by
  obtain ⟨hk, hc, h⟩ := h
  refine .mk hk hc (hL _ _ ?_ h)
  simp only [List.length_append]
  omega

section
variable {f : Reader} {L : Text → Value → Prop}

theorem sound_pair (hf : f.Sound L) :
    (pairReader f).Sound fun l v => ∃ field, Field L l field ∧ v = pairValue field := by
  intro t v rest h
  obtain ⟨_, _ | ⟨hk, _ | ⟨hs, _ | ⟨hw, ⟨⟩⟩⟩⟩, rfl⟩ := Reader.map_sequence_eq_some.mp h
  obtain ⟨_, rfl, body, hb, rfl, rfl⟩ := Reader.sound_doubleQuoted _ _ _ hk
  obtain ⟨c, rfl, hc⟩ := Reader.sound_around readAs_colon _ _ _ hs
  obtain ⟨u, rfl, hu⟩ := hf _ _ _ hw
  exact ⟨_, by simp only [List.append_assoc], _, .mk hb hc hu, rfl⟩

theorem complete_pair {S : Text → Prop} (hf : f.Complete L S) (hL : ∀ u v, L u v → StartsWith Opens u) :
    (pairReader f).Complete (fun l v => ∃ field, Field L l field ∧ v = pairValue field) S := by
  rintro _ _ rest ⟨_, ⟨hb, hc, hu⟩, rfl⟩ hrest
  rename_i body c t v
  have hk := Reader.complete_doubleQuoted _ _ (c ++ t ++ rest) ⟨body, hb, rfl, rfl⟩ trivial
  have hstop : StopsAt .blank (t ++ rest) := (hL t v hu).stopsAt (fun _ => And.left) rest
  have hskip := Reader.skips_pattern readAs_colon (Regex.takes_around (by decide))
  obtain ⟨s, hs⟩ := hskip c (t ++ rest) hc hstop
  have hv := hf t v rest hu hrest
  rw [List.append_assoc] at hk
  rw [List.append_assoc, List.append_assoc]
  exact Reader.map_sequence_eq_some.mpr ⟨_, .cons hk (.cons hs (.cons hv .nil)), rfl⟩

theorem sound_closeBrace :
    (Reader.sequence [Leaf.whitespaceOpt.reader, .literal "\x7d"]).Sound fun l _ => Closing '\x7d' l := by
  intro t v rest h
  obtain ⟨_, _ | ⟨hw, _ | ⟨hb, ⟨⟩⟩⟩, rfl⟩ := Reader.sequence_eq_some.mp h
  obtain ⟨rfl, rfl⟩ := Reader.literal_eq_some.mp hb
  obtain ⟨w, rfl, hblank⟩ := Reader.sound_blanks _ _ _ hw
  exact ⟨w ++ ['\x7d'], by rw [List.append_assoc]; rfl, w, hblank, rfl⟩

theorem skips_closeBrace :
    (Reader.sequence [Leaf.whitespaceOpt.reader, .literal "\x7d"]).Skips (Closing '\x7d') fun _ => True := by
  rintro _ rest ⟨w, hw, rfl⟩ -
  obtain ⟨v, hv⟩ := Reader.skips_blanks w ('\x7d' :: rest) hw (Regex.stopsAt_cons (by decide))
  have hb : Reader.literal "\x7d" ('\x7d' :: rest) = some (.str "\x7d", rest) := rfl
  rw [List.append_assoc]
  exact ⟨_, Reader.sequence_eq_some.mpr ⟨_, .cons hv (.cons hb .nil), rfl⟩⟩

theorem enclosed_pairs {l : Text} {vs : List Value} {a b : Char} :
    Enclosed a b (fun l v => ∃ field, Field L l field ∧ v = pairValue field) l vs ↔
      ∃ fields, Enclosed a b (Field L) l fields ∧ vs = fields.map pairValue := by
  constructor
  · rintro ⟨o, t, c, ho, hr, hc, rfl⟩
    obtain ⟨fields, hfields, rfl⟩ := rows_map.mp hr
    exact ⟨fields, ⟨o, t, c, ho, hfields, hc, rfl⟩, rfl⟩
  · rintro ⟨fields, ⟨o, t, c, ho, hr, hc, rfl⟩, rfl⟩
    exact ⟨o, t, c, ho, rows_map.mpr ⟨fields, hr, rfl⟩, hc, rfl⟩

theorem sound_object (hf : f.Sound L) : (objectReader f).Sound fun l v =>
    ∃ fields, Enclosed '\x7b' '\x7d' (Field L) l fields ∧ v = Value.ofFields fields := by
  have h := sound_enclosed (Reader.sound_opening readAs_openBrace) (sound_pair hf) sound_closeBrace
    (f := objectOf) (g := Value.ofPairs) fun _ _ _ => rfl
  refine h.mono ?_
  rintro l _ ⟨_, he, rfl⟩
  obtain ⟨fields, hfields, rfl⟩ := enclosed_pairs.mp he
  exact ⟨fields, hfields, ofPairs_pairValue fields⟩

theorem sound_array (hf : f.Sound L) : (arrayReader f).Sound fun l v => ∃ vs, Enclosed '[' ']' L l vs ∧ v = .list vs :=
  sound_enclosed (Reader.sound_opening readAs_openBracket) hf (Reader.sound_closing readAs_closeBracket)
    fun _ _ _ => rfl

variable {L' : Text → Value → Prop} (hf : f.Complete L Delimited) (hs : f.Sound L')
  (hL : ∀ u v, L u v → StartsWith Opens u)
include hf hs hL

theorem complete_object : (objectReader f).Complete (fun l v =>
    ∃ fields, Enclosed '\x7b' '\x7d' (Field L) l fields ∧ v = Value.ofFields fields) fun _ => True := by
  have hpair : ∀ {L : Text → Value → Prop} u v, (∃ field, Field L u field ∧ v = pairValue field) →
      StartsWith Opens u := by
    rintro _ _ _ ⟨_, hfield, rfl⟩
    obtain ⟨t, rfl⟩ := hfield.starts
    exact ⟨'"', t, rfl, by decide⟩
  have hnone : ∀ rest, Delimited rest → pairReader f rest = none := fun _ hrest =>
    (sound_pair hs).eq_none hpair hrest.not_opens
  have hopen := Reader.skips_pattern readAs_openBrace Regex.takes_opening
  have h := complete_enclosed hopen (complete_pair hf hL) hnone skips_closeBrace hpair (by decide)
    (f := objectOf) (g := Value.ofPairs) fun _ _ _ => rfl
  rintro l _ rest ⟨fields, he, rfl⟩ hrest
  exact h l _ rest ⟨_, enclosed_pairs.mpr ⟨fields, he, rfl⟩, (ofPairs_pairValue fields).symm⟩ hrest

theorem complete_array (hL' : ∀ u v, L' u v → StartsWith Opens u) : (arrayReader f).Complete (fun l v =>
    ∃ vs, Enclosed '[' ']' L l vs ∧ v = .list vs) fun _ => True :=
  complete_enclosed (Reader.skips_pattern readAs_openBracket Regex.takes_opening) hf
    (fun _ hrest => hs.eq_none hL' hrest.not_opens) (Reader.skips_pattern readAs_closeBracket (Regex.takes_closing (by decide))) hL (by decide) fun _ _ _ => rfl

end

/-! ## Values -/

theorem sound_value : ∀ depth, (value depth).Sound Json
  | 0 => nofun
  | depth + 1 => by
    have ih := sound_value depth
    have word (s : String) (w : Value) (h : Json s.toList w) : (Reader.map (fun _ => w) (.literal s)).Sound Json := by
      intro t v rest hr
      obtain ⟨_, hl, rfl⟩ := Reader.map_eq_some.mp hr
      exact ⟨s.toList, (Reader.literal_eq_some.mp hl).1, h⟩
    refine Reader.sound_choice ?_
    simp only [options, List.forall_mem_cons]
    refine ⟨?_, ?_, ?_, ?_, word _ _ .true, word _ _ .false, word _ _ .null, nofun⟩
    · refine Reader.sound_doubleQuoted.mono ?_
      rintro _ _ ⟨body, hb, rfl, rfl⟩
      exact .string hb
    · refine Reader.sound_exponential.mono ?_
      rintro l _ ⟨hl, x, hx, rfl⟩
      exact .number hl hx
    · refine (sound_object ih).mono ?_
      rintro _ _ ⟨fields, ⟨o, t, c, ho, hr, hc, rfl⟩, rfl⟩
      obtain ⟨members, hm, hg⟩ := Value.exists_gathers fields
      rw [hm]
      exact .object ho hr hc hg
    · refine (sound_array ih).mono ?_
      rintro _ _ ⟨vs, ⟨o, t, c, ho, hr, hc, rfl⟩, rfl⟩
      exact .array ho hr hc

section
variable {c : Char} {u : Text}

theorem doubleQuoted_none (hc : c ≠ '"') : Leaf.doubleQuoted.reader (c :: u) = none := by
  refine Reader.sound_doubleQuoted.eq_none (P := (· = '"')) ?_ ?_
  · rintro _ _ ⟨body, -, rfl, -⟩
    exact ⟨'"', _, rfl, rfl⟩
  · rintro _ ⟨⟩
    exact hc

theorem exponential_none (hc : ¬Numeral.IsStart c) : Leaf.exponential.reader (c :: u) = none := by
  refine Reader.sound_exponential.eq_none (P := Numeral.IsStart) ?_ ?_
  · rintro _ _ ⟨hl, -⟩
    exact hl.starts
  · rintro _ ⟨⟩
    exact hc

theorem object_none (depth : Nat) (hc : c ≠ '\x7b') : objectReader (value depth) (c :: u) = none := by
  refine (sound_object (sound_value depth)).eq_none (P := (· = '\x7b')) ?_ ?_
  · rintro _ _ ⟨_, ⟨_, _, _, ⟨w, -, rfl⟩, -, -, rfl⟩, -⟩
    exact ⟨'\x7b', _, rfl, rfl⟩
  · rintro _ ⟨⟩
    exact hc

theorem array_none (depth : Nat) (hc : c ≠ '[') : arrayReader (value depth) (c :: u) = none := by
  refine (sound_array (sound_value depth)).eq_none (P := (· = '[')) ?_ ?_
  · rintro _ _ ⟨_, ⟨_, _, _, ⟨w, -, rfl⟩, -, -, rfl⟩, -⟩
    exact ⟨'[', _, rfl, rfl⟩
  · rintro _ ⟨⟩
    exact hc

theorem not_isStart (h : c ∈ ['\x7b', '[', 't', 'f', 'n']) : ¬Numeral.IsStart c := by
  have hm : ∀ d ∈ ['\x7b', '[', 't', 'f', 'n'],
      d ∉ ['0', '1', '2', '3', '4', '5', '6', '7', '8', '9', '.', '-', '+'] :=
    List.all_iff_forall_prop.mp (by decide)
  exact fun hc => hm c h hc.mem

end

/-- The rows of a text that is short enough consist of texts that are shorter still. -/
theorem Enclosed.mono {α : Type} {a b : Char} {L L' : Text → α → Prop} {o t c : Text} {as : List α} {depth : Nat}
    (ho : Opening a o) (hr : Rows (Around ',') L t as) (hc : Closing b c) (hl : (o ++ (t ++ c)).length < depth + 1)
    (h : ∀ u v, u.length < depth → L u v → L' u v) : Enclosed a b L' (o ++ (t ++ c)) as := by
  have ht := ho.length_lt t c
  exact ⟨o, t, c, ho, hr.mono fun u v hu => h u v (by omega), hc, rfl⟩

theorem brackets_none (depth : Nat) {c : Char} {u : Text} (h : c ∈ ['t', 'f', 'n']) :
    ∀ f ∈ (options (value depth)).take 4, f (c :: u) = none := by
  have hc : c ≠ '"' ∧ c ≠ '\x7b' ∧ c ≠ '[' ∧ c ∈ ['\x7b', '[', 't', 'f', 'n'] := by
    simp only [List.mem_cons, List.not_mem_nil, or_false] at h
    rcases h with rfl | rfl | rfl <;> decide
  refine List.forall_mem_cons.mpr ⟨doubleQuoted_none hc.1, ?_⟩
  refine List.forall_mem_cons.mpr ⟨exponential_none (not_isStart hc.2.2.2), ?_⟩
  exact List.forall_mem_cons.mpr ⟨object_none depth hc.2.1, List.forall_mem_singleton.mpr (array_none depth hc.2.2.1)⟩

theorem word_reads (s : String) (w : Value) (rest : Text) :
    Reader.map (fun _ => w) (.literal s) (s.toList ++ rest) = some (w, rest) :=
  Reader.map_eq_some.mpr ⟨_, Reader.literal_eq_some.mpr ⟨rfl, rfl⟩, rfl⟩

/-- Values whose texts are short enough are read in full before whatever may follow them. -/
theorem complete_value : ∀ depth, (value depth).Complete (fun l v => l.length < depth ∧ Json l v) Delimited
  | 0 => by
    rintro l v rest ⟨hl, -⟩
    exact absurd hl (Nat.not_lt_zero _)
  | depth + 1 => by
    have ih := complete_value depth
    have starts : ∀ u v, u.length < depth ∧ Json u v → StartsWith Opens u := fun u v h => h.2.starts
    rintro l v rest ⟨hl, hj⟩ hrest
    have read (before after : List Reader) (f : Reader) (ho : options (value depth) = before ++ f :: after)
        (hb : ∀ g ∈ before, g (l ++ rest) = none) (hf : f (l ++ rest) = some (v, rest)) :
        value (depth + 1) (l ++ rest) = some (v, rest) := by
      rw [value, ho]
      exact Reader.choice_of_none hb hf
    cases hj with
    | @string body hb =>
      have hr := Reader.complete_doubleQuoted _ _ rest ⟨body, hb, rfl, rfl⟩ trivial
      exact read [] _ _ rfl nofun hr
    | @number _ x hn hx =>
      have hr := Reader.complete_exponential _ _ rest ⟨hn, x, hx, rfl⟩ hrest.ends
      obtain ⟨c, u, rfl, hc⟩ := hn.starts
      have hq : c ≠ '"' := by
        rintro rfl
        exact absurd hc.mem (by decide)
      exact read [_] _ _ rfl (List.forall_mem_singleton.mpr (doubleQuoted_none hq)) hr
    | @object o t c fields members ho hrow hc hm =>
      obtain ⟨members', hobject, hg⟩ := Value.exists_gathers fields
      cases hm.unique hg
      have he : Enclosed '\x7b' '\x7d' (Field fun l v => l.length < depth ∧ Json l v) (o ++ (t ++ c)) fields :=
        Enclosed.mono ho hrow hc hl fun u field hu h => h.mono fun t v ht hv => ⟨Nat.lt_of_le_of_lt ht hu, hv⟩
      have hr := complete_object ih (sound_value depth) starts _ _ rest ⟨fields, he, hobject.symm⟩ trivial
      obtain ⟨w, -, rfl⟩ := ho
      refine read [_, _] _ _ rfl (List.forall_mem_cons.mpr ⟨doubleQuoted_none (by decide), ?_⟩) hr
      exact List.forall_mem_singleton.mpr (exponential_none (not_isStart (by decide)))
    | @array o t c vs ho hrow hc =>
      have he : Enclosed '[' ']' (fun l v => l.length < depth ∧ Json l v) (o ++ (t ++ c)) vs :=
        Enclosed.mono ho hrow hc hl fun u v hu h => ⟨hu, h⟩
      have hr := complete_array ih (sound_value depth) starts (fun _ _ => Json.starts) _ _ rest ⟨vs, he, rfl⟩ trivial
      obtain ⟨w, -, rfl⟩ := ho
      refine read [_, _, _] _ _ rfl (List.forall_mem_cons.mpr ⟨doubleQuoted_none (by decide), ?_⟩) hr
      refine List.forall_mem_cons.mpr ⟨exponential_none (not_isStart (by decide)), ?_⟩
      exact List.forall_mem_singleton.mpr (object_none depth (by decide))
    | true => exact read _ _ _ rfl (brackets_none depth (by decide)) (word_reads "true" (.bool true) rest)
    | false =>
      refine read (_ ++ [_]) _ _ rfl (List.forall_mem_append.mpr ⟨brackets_none depth (by decide), ?_⟩)
        (word_reads "false" (.bool false) rest)
      exact List.forall_mem_singleton.mpr rfl
    | null =>
      refine read (_ ++ [_, _]) _ _ rfl (List.forall_mem_append.mpr ⟨brackets_none depth (by decide), ?_⟩)
        (word_reads "null" .null rest)
      exact List.forall_mem_cons.mpr ⟨rfl, List.forall_mem_singleton.mpr rfl⟩

/-- With as many values inside one another as the text has characters, the reader reads a text to its end exactly if it
is the text of a value. -/
theorem value_eq_some_iff {t : Text} {v : Value} : value (t.length + 1) t = some (v, []) ↔ Json t v := by
  constructor
  · intro h
    obtain ⟨l, rfl, hl⟩ := sound_value _ _ _ _ h
    rwa [List.append_nil]
  · intro h
    have hr := complete_value (t.length + 1) t v [] ⟨Nat.lt_succ_self _, h⟩ nofun
    rwa [List.append_nil] at hr

end FurthestMatch.JsonText
