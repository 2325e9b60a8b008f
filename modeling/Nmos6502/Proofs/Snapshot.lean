/-
Snapshots survive being written down, and every text of a snapshot has one canonical form.

Writing and reading do not mirror each other: one text is written for a snapshot, many are
read as it.  What the two share is the row of tokens in between.  The written text is read
token by token up to its end, which gives the tokens of one JSON object; and a text is read
as a snapshot exactly if its tokens are those of a JSON value in which each register is
found once, `parse?_eq_some_iff`.  That the value read is the one written then says that
neither a register nor a bit of the status is lost or invented.
-/
import Nmos6502.Proofs.Json.Token
import Nmos6502.Proofs.Json.Value
import Nmos6502.Proofs.Letters
import Nmos6502.Snapshot.Text

namespace Nmos6502

open Json (Token EndsNumber IsPlain tokens?)

namespace Snapshot

/-! ### The canonical text is read back -/

/-- The JSON value that a snapshot is written as. -/
def json (s : Snapshot) : Json.Value :=
  .object [(some "a", .natural s.a.toNat), (some "x", .natural s.x.toNat),
    (some "y", .natural s.y.toNat), (some "sp", .natural s.sp.toNat),
    (some "pc", .natural s.pc.toNat), (some "status", .text (some s.status.render))]

/-- A name in front of its value. -/
def label (name : String) : List Char := '"' :: (name.toList ++ ['"', ':'])

theorem tokens?_label_append {name : String} (h : ∀ c ∈ name.toList, IsPlain c)
    (rest : List Char) :
    tokens? (label name ++ rest) =
      (tokens? rest).map ([Token.text (some name), .colon] ++ ·) := by
  have hcolon : tokens? (':' :: rest) = (tokens? rest).map (.colon :: ·) :=
    Json.tokens?_of_readToken rfl rfl
  rw [label, List.cons_append, List.append_assoc, List.cons_append, List.singleton_append,
    Json.tokens?_quoted_append h, hcolon, Option.map_map, String.ofList_toList]
  rfl

/-- A name with a number. -/
def field (name : String) (n : Nat) : List Char := label name ++ Nat.toDigits 10 n

/-- A name and its number are three tokens. -/
theorem tokens?_field_append {name : String} (h : ∀ c ∈ name.toList, IsPlain c) (n : Nat)
    {rest : List Char} (hrest : EndsNumber rest) :
    tokens? (field name n ++ rest) =
      (tokens? rest).map ([Token.text (some name), .colon, .natural n] ++ ·) := by
  rw [field, List.append_assoc, tokens?_label_append h, Json.tokens?_toDigits_append hrest,
    Option.map_map]
  rfl

theorem toList_render (s : Snapshot) :
    s.render.toList =
      ['\x7b'] ++ field "a" s.a.toNat ++ [','] ++ field "x" s.x.toNat ++ [','] ++
        field "y" s.y.toNat ++ [','] ++ field "sp" s.sp.toNat ++ [','] ++
        field "pc" s.pc.toNat ++ [','] ++ label "status" ++ ['"'] ++ s.status.letters ++
        ['"', '\x7d'] := by
  have ha : "\x7b\"a\":".toList = ['\x7b'] ++ label "a" := by simp [label]
  have hx : ",\"x\":".toList = [','] ++ label "x" := by simp [label]
  have hy : ",\"y\":".toList = [','] ++ label "y" := by simp [label]
  have hsp : ",\"sp\":".toList = [','] ++ label "sp" := by simp [label]
  have hpc : ",\"pc\":".toList = [','] ++ label "pc" := by simp [label]
  have hstatus : ",\"status\":\"".toList = [','] ++ label "status" ++ ['"'] := by simp [label]
  have hend : "\"\x7d".toList = ['"', '\x7d'] := by simp
  unfold render
  simp only [String.toList_append, Nat.toString_eq_ofList_toDigits, String.toList_ofList,
    Status.render, field, ha, hx, hy, hsp, hpc, hstatus, hend, List.append_assoc]

theorem plain_name (f : Flag) : ∀ c ∈ f.name.toList, IsPlain c := by
  cases f <;> simp [Flag.name, IsPlain]

/-- The names of the flags and what stands between them need no escapes. -/
theorem plain_letters (s : Status) : ∀ c ∈ s.letters, IsPlain c := by
  have hbar : ∀ c ∈ [' ', '|', ' '], IsPlain c := by simp [IsPlain]
  intro c hc
  unfold Status.letters at hc
  cases hflags : s.flags with
  | nil =>
      rw [hflags] at hc
      exact absurd hc (by simp)
  | cons f fs =>
      rw [hflags, List.map_cons, Json.intercalate_cons] at hc
      rcases List.mem_append.mp hc with hc | hc
      · exact plain_name f c hc
      · obtain ⟨name, hname, hc⟩ := List.mem_flatMap.mp hc
        obtain ⟨g, -, rfl⟩ := List.mem_map.mp hname
        rcases List.mem_append.mp hc with hc | hc
        · exact hbar c hc
        · exact plain_name g c hc

theorem tokens?_render (s : Snapshot) : tokens? s.render.toList = some s.json.tokens := by
  have hopen (rest : List Char) : tokens? ('\x7b' :: rest) = (tokens? rest).map (.openBrace :: ·) :=
    Json.tokens?_of_readToken rfl rfl
  have hcomma (rest : List Char) : tokens? (',' :: rest) = (tokens? rest).map (.comma :: ·) :=
    Json.tokens?_of_readToken rfl rfl
  have hclose : tokens? ['\x7d'] = some [.closeBrace] := by decide +kernel
  have hends (rest : List Char) : EndsNumber (',' :: rest) := ⟨rfl, by decide, by decide, by decide⟩
  have hplain := plain_letters s.status
  rw [toList_render]
  simp only [List.append_assoc, List.cons_append, List.nil_append, hopen]
  rw [tokens?_field_append (by simp [IsPlain]) _ (hends _), hcomma,
    tokens?_field_append (by simp [IsPlain]) _ (hends _), hcomma,
    tokens?_field_append (by simp [IsPlain]) _ (hends _), hcomma,
    tokens?_field_append (by simp [IsPlain]) _ (hends _), hcomma,
    tokens?_field_append (by simp [IsPlain]) _ (hends _), hcomma,
    tokens?_label_append (by simp [IsPlain]), Json.tokens?_quoted_append hplain, hclose]
  simp [json, Json.Value.tokens, Json.intercalate_cons, Status.render]

/-! ### Which texts are accepted -/

/-- Whether an object has exactly one member of a name, and that has the value `v`. -/
def Sole (members : List Json.Member) (name : String) (v : Json.Value) : Prop :=
  ∃ front back, members = front ++ (some name, v) :: back ∧
    ∀ m ∈ front ++ back, m.1 ≠ some name

theorem member?_eq_some_iff_filter {members : List Json.Member} {name : String}
    {v : Json.Value} :
    member? members name = some v ↔
      members.filter (fun m => m.1 == some name) = [(some name, v)] := by
  unfold member?
  constructor
  · intro h
    split at h
    · rename_i key w hfilter
      obtain rfl := Option.some.inj h
      have hkey : (key, w) ∈ members.filter (fun m => m.1 == some name) := by
        rw [hfilter]
        exact List.mem_singleton_self _
      have hname : key = some name := eq_of_beq (List.mem_filter.mp hkey).2
      rw [hfilter, hname]
    · exact absurd h (by simp)
  · intro h
    rw [h]

theorem member?_eq_some_iff {members : List Json.Member} {name : String} {v : Json.Value} :
    member? members name = some v ↔ Sole members name v := by
  rw [member?_eq_some_iff_filter, List.filter_eq_cons_iff, Sole]
  constructor
  · rintro ⟨front, back, rfl, hfront, -, hback⟩
    rw [List.filter_eq_nil_iff] at hback
    refine ⟨front, back, rfl, fun m hm => ?_⟩
    rcases List.mem_append.mp hm with hm | hm
    · simpa using hfront m hm
    · simpa using hback m hm
  · rintro ⟨front, back, rfl, hothers⟩
    have hback : ∀ m ∈ back, ¬(m.1 == some name) = true := fun m hm => by
      simpa using hothers m (List.mem_append_right _ hm)
    refine ⟨front, back, rfl, fun m hm => ?_, by simp, List.filter_eq_nil_iff.mpr hback⟩
    simpa using hothers m (List.mem_append_left _ hm)

theorem byte?_eq_some_iff {v : Json.Value} {b : Byte} :
    byte? v = some b ↔ v = .natural b.toNat := by
  constructor
  · intro h
    unfold byte? at h
    split at h
    · split at h
      · rename_i n hn
        obtain rfl := Option.some.inj h
        rw [UInt8.toNat_ofNat_of_lt' hn]
      · exact absurd h (by simp)
    · exact absurd h (by simp)
  · rintro rfl
    simp [byte?, b.toNat_lt]

theorem address?_eq_some_iff {v : Json.Value} {a : Address} :
    address? v = some a ↔ v = .natural a.toNat := by
  constructor
  · intro h
    unfold address? at h
    split at h
    · split at h
      · rename_i n hn
        obtain rfl := Option.some.inj h
        rw [UInt16.toNat_ofNat_of_lt' hn]
      · exact absurd h (by simp)
    · exact absurd h (by simp)
  · rintro rfl
    simp [address?, a.toNat_lt]

theorem status?_eq_some_iff {v : Json.Value} {s : Status} :
    status? v = some s ↔ ∃ text, v = .text (some text) ∧ s.IsWrittenAs text.toList := by
  constructor
  · intro h
    unfold status? at h
    split at h
    · rename_i text
      exact ⟨text, rfl, Status.ofLetters?_eq_some_iff.mp h⟩
    · exact absurd h (by simp)
  · rintro ⟨text, rfl, htext⟩
    exact Status.ofLetters?_eq_some_iff.mpr htext

/-- The values of the registers in the order of writing. -/
theorem ofValues?_eq_some_iff {a x y sp pc status : Json.Value} {s : Snapshot} :
    ofValues? a x y sp pc status = some s ↔
      a = .natural s.a.toNat ∧ x = .natural s.x.toNat ∧ y = .natural s.y.toNat ∧
        sp = .natural s.sp.toNat ∧ pc = .natural s.pc.toNat ∧
        ∃ text, status = .text (some text) ∧ s.status.IsWrittenAs text.toList := by
  simp only [ofValues?, Option.bind_eq_bind, Option.bind_eq_some_iff, Option.pure_def,
    Option.some.injEq, byte?_eq_some_iff, address?_eq_some_iff, status?_eq_some_iff]
  constructor
  · rintro ⟨a, ha, x, hx, y, hy, sp, hsp, pc, hpc, status, hstatus, rfl⟩
    exact ⟨ha, hx, hy, hsp, hpc, hstatus⟩
  · rintro ⟨ha, hx, hy, hsp, hpc, hstatus⟩
    exact ⟨s.a, ha, s.x, hx, s.y, hy, s.sp, hsp, s.pc, hpc, s.status, hstatus, rfl⟩

/-- Whether a JSON value writes a snapshot. -/
inductive IsWrittenAs (s : Snapshot) : Json.Value → Prop
  /-- An object with each of the six members once, and any others. -/
  | object {members : List Json.Member} {text : String} (hnames : ∀ m ∈ members, m.1 ≠ none)
      (ha : Sole members "a" (.natural s.a.toNat)) (hx : Sole members "x" (.natural s.x.toNat))
      (hy : Sole members "y" (.natural s.y.toNat)) (hsp : Sole members "sp" (.natural s.sp.toNat))
      (hpc : Sole members "pc" (.natural s.pc.toNat))
      (hstatus : Sole members "status" (.text (some text)))
      (htext : s.status.IsWrittenAs text.toList) : IsWrittenAs s (.object members)
  /-- The six values alone. -/
  | array {text : String} (htext : s.status.IsWrittenAs text.toList) :
      IsWrittenAs s (.array [.natural s.a.toNat, .natural s.x.toNat, .natural s.y.toNat,
        .natural s.sp.toNat, .natural s.pc.toNat, .text (some text)])

theorem ofValue?_eq_some_iff {v : Json.Value} {s : Snapshot} :
    ofValue? v = some s ↔ s.IsWrittenAs v := by
  constructor
  · intro h
    unfold ofValue? at h
    split at h
    · split at h
      · rename_i members hnames
        simp only [Option.bind_eq_bind, Option.bind_eq_some_iff, member?_eq_some_iff,
          ofValues?_eq_some_iff] at h
        obtain ⟨_, ha, _, hx, _, hy, _, hsp, _, hpc, _, hstatus, rfl, rfl, rfl, rfl, rfl, text,
          rfl, htext⟩ := h
        refine .object (fun m hm hnone => ?_) ha hx hy hsp hpc hstatus htext
        have := List.all_eq_true.mp hnames m hm
        simp [hnone] at this
      · exact absurd h (by simp)
    · obtain ⟨rfl, rfl, rfl, rfl, rfl, text, rfl, htext⟩ := ofValues?_eq_some_iff.mp h
      exact .array htext
    · exact absurd h (by simp)
  · intro h
    cases h with
    | @object members text hnames ha hx hy hsp hpc hstatus htext =>
        have hall : (members.all fun m => m.1.isSome) = true := by
          rw [List.all_eq_true]
          intro m hm
          exact Option.isSome_iff_ne_none.mpr (hnames m hm)
        rw [ofValue?, if_pos hall]
        simp only [member?_eq_some_iff.mpr ha, member?_eq_some_iff.mpr hx,
          member?_eq_some_iff.mpr hy, member?_eq_some_iff.mpr hsp, member?_eq_some_iff.mpr hpc,
          member?_eq_some_iff.mpr hstatus, Option.bind_eq_bind, Option.bind_some]
        exact ofValues?_eq_some_iff.mpr ⟨rfl, rfl, rfl, rfl, rfl, text, rfl, htext⟩
    | array htext => exact ofValues?_eq_some_iff.mpr ⟨rfl, rfl, rfl, rfl, rfl, _, rfl, htext⟩

theorem parse?_eq_some_iff {text : String} {s : Snapshot} :
    parse? text = some s ↔ ∃ v, tokens? text.toList = some v.tokens ∧ s.IsWrittenAs v := by
  simp only [parse?, Json.parse?, Option.bind_eq_bind, Option.bind_eq_some_iff,
    Json.ofTokens?_eq_some_iff, ofValue?_eq_some_iff]
  constructor
  · rintro ⟨v, ⟨tokens, htokens, rfl⟩, hv⟩
    exact ⟨v, htokens, hv⟩
  · rintro ⟨v, htokens, hv⟩
    exact ⟨v, ⟨v.tokens, htokens, rfl⟩, hv⟩

/-! ### One text for each snapshot -/

theorem ofValue?_json (s : Snapshot) : ofValue? s.json = some s := by
  have hvalues : ofValues? (.natural s.a.toNat) (.natural s.x.toNat) (.natural s.y.toNat)
      (.natural s.sp.toNat) (.natural s.pc.toNat) (.text (some s.status.render)) = some s :=
    ofValues?_eq_some_iff.mpr ⟨rfl, rfl, rfl, rfl, rfl, s.status.render, rfl,
      Status.ofLetters?_eq_some_iff.mp (Status.parse?_render s.status)⟩
  simpa [json, ofValue?, member?] using hvalues

/-- A snapshot is read back from its canonical text. -/
theorem parse?_canonical (s : Snapshot) : parse? s.render = some s :=
  parse?_eq_some_iff.mpr ⟨s.json, tokens?_render s, ofValue?_eq_some_iff.mp (ofValue?_json s)⟩

/-- The canonical text of a text that writes a snapshot. -/
def canonical? (text : String) : Option String := (parse? text).map render

/-- Every snapshot is read back from its canonical text, which no other snapshot has.  A text
is accepted exactly if its tokens are those of a JSON value that writes a snapshot; its
canonical text writes the same snapshot, is its own canonical text, and is shared by exactly
the texts that write that snapshot. -/
theorem text_canonical :
    (∀ s : Snapshot, parse? s.render = some s) ∧
    Function.Injective render ∧
    (∀ text s, parse? text = some s ↔
      ∃ v : Json.Value, tokens? text.toList = some v.tokens ∧ s.IsWrittenAs v) ∧
    (∀ text canon, canonical? text = some canon →
      parse? canon = parse? text ∧ canonical? canon = some canon) ∧
    (∀ text other, canonical? text = canonical? other ↔ parse? text = parse? other) := by
  have hinj : Function.Injective render := by
    intro s t h
    have hs := parse?_canonical s
    rw [h, parse?_canonical t] at hs
    exact (Option.some.inj hs).symm
  refine ⟨parse?_canonical, hinj, fun text s => parse?_eq_some_iff, ?_, ?_⟩
  · intro text canon h
    obtain ⟨s, hs, rfl⟩ := Option.map_eq_some_iff.mp h
    refine ⟨by rw [parse?_canonical, hs], ?_⟩
    rw [canonical?, parse?_canonical, Option.map_some]
  · intro text other
    exact (Option.map_injective hinj).eq_iff

/-- Members in another order and one more, a flag named twice and a number, and blanks. -/
def laxText : String :=
  " \x7b\"pc\": 513,\"time\":[1.5,null],\"x\":3,\n\"sp\":253," ++
    "\"status\":\" ZERO|0x21 | ZERO \",\"y\":4,\"a\":255\x7d "

/-- The canonical text of the same snapshot. -/
def strictText : String :=
  "\x7b\"a\":255,\"x\":3,\"y\":4,\"sp\":253,\"pc\":513,\"status\":\"CARRY | ZERO | UNUSED\"\x7d"

theorem text_canonical_lax :
    canonical? laxText = some strictText ∧ parse? strictText = parse? laxText ∧
      canonical? strictText = some strictText := by
  have hlax : canonical? laxText = some strictText := by decide +kernel
  exact ⟨hlax, text_canonical.2.2.2.1 laxText strictText hlax⟩

end Snapshot

end Nmos6502
