/-
A row of tokens reads as a value exactly if it is the row that the value writes.

The reader keeps its open containers on a stack, so nothing of what it has taken in is
lost: from where it stands the tokens behind it can be told, `consumed`.  Every token it
takes is added to them, which makes the tokens of the value it ends with the ones it was
given.  The other way round a value's tokens are read by induction on the value, above any
stack.
-/
import Nmos6502.Json.Value

namespace Nmos6502

namespace Json

/-! ### The tokens of a value -/

/-- The tokens that write a value. -/
def Value.tokens : Value → List Token
  | .word => [.word]
  | .natural n => [.natural n]
  | .number => [.number]
  | .text content => [.text content]
  | .array items => .openBracket :: [Token.comma].intercalate (items.map tokens) ++ [.closeBracket]
  | .object members =>
    .openBrace :: [Token.comma].intercalate (members.map fun m => .text m.1 :: .colon :: m.2.tokens)
      ++ [.closeBrace]
decreasing_by
  · rename_i h
    have := List.sizeOf_lt_of_mem h
    simp only [array.sizeOf_spec]
    omega
  · rename_i h
    have := List.sizeOf_lt_of_mem h
    obtain ⟨name, v⟩ := m
    simp only [object.sizeOf_spec, Prod.mk.sizeOf_spec] at this ⊢
    omega

/-- The tokens that write a member of an object. -/
def Member.tokens (m : Member) : List Token := .text m.1 :: .colon :: m.2.tokens

theorem Value.tokens_array (items : List Value) :
    (Value.array items).tokens =
      .openBracket :: [Token.comma].intercalate (items.map tokens) ++ [.closeBracket] := by
  rw [tokens]

theorem Value.tokens_object (members : List Member) :
    (Value.object members).tokens =
      .openBrace :: [Token.comma].intercalate (members.map Member.tokens) ++ [.closeBrace] := by
  rw [tokens]
  rfl

/-- Rows with a separator between two, told from the front. -/
theorem intercalate_cons {α : Type} (sep xs : List α) (xss : List (List α)) :
    sep.intercalate (xs :: xss) = xs ++ xss.flatMap (sep ++ ·) := by
  induction xss generalizing xs with
  | nil => simp
  | cons ys yss ih => simp [ih]

/-- Rows with a separator between two, told from the back. -/
theorem intercalate_concat {α : Type} (sep xs : List α) (xss : List (List α)) :
    sep.intercalate (xss ++ [xs]) = xss.flatMap (· ++ sep) ++ xs := by
  induction xss with
  | nil => simp
  | cons ys yss ih =>
      have hne : yss ++ [xs] ≠ [] := by simp
      rw [List.cons_append, List.intercalate_cons_of_ne_nil hne, ih]
      simp

/-! ### What the reader has taken in -/

/-- An object's brace and the members read so far, which are last first, each with its comma. -/
def membersSoFar (members : List Member) : List Token :=
  .openBrace :: (members.reverse.map Member.tokens).flatMap (· ++ [.comma])

/-- The tokens of an open container up to the value that it waits for. -/
def Open.tokens : Open → List Token
  | .array items => .openBracket :: (items.reverse.map Value.tokens).flatMap (· ++ [.comma])
  | .object members name => membersSoFar members ++ [.text name, .colon]

/-- The tokens of what the reader is looking at. -/
def Focus.tokens : Focus → List Token
  | .value => []
  | .arrayStart => [.openBracket]
  | .objectStart => [.openBrace]
  | .name members => membersSoFar members
  | .colon members key => membersSoFar members ++ [.text key]
  | .done v => v.tokens

/-- The tokens that have brought the reader to where it stands. -/
def consumed (state : Focus × List Open) : List Token :=
  (state.2.reverse.flatMap Open.tokens) ++ state.1.tokens

theorem consumed_beginValue {stack : List Open} {t : Token} {state : Focus × List Open}
    (h : beginValue stack t = some state) :
    consumed state = consumed (.value, stack) ++ [t] := by
  unfold beginValue at h
  split at h <;> simp only [Option.some.injEq, reduceCtorEq] at h <;> subst h <;>
    simp [consumed, Focus.tokens, Value.tokens]

theorem consumed_advance {state state' : Focus × List Open} {t : Token}
    (h : advance state t = some state') : consumed state' = consumed state ++ [t] := by
  obtain ⟨focus, stack⟩ := state
  cases focus with
  | value => exact consumed_beginValue h
  | arrayStart =>
      simp only [advance] at h
      split at h
      · obtain rfl := Option.some.inj h
        simp [consumed, Focus.tokens, Value.tokens_array]
      · rw [consumed_beginValue h]
        simp [consumed, Focus.tokens, Open.tokens]
  | objectStart =>
      simp only [advance] at h
      split at h <;> simp only [Option.some.injEq, reduceCtorEq] at h <;> subst h <;>
        simp [consumed, Focus.tokens, Value.tokens_object, membersSoFar]
  | name members =>
      simp only [advance] at h
      split at h <;> simp only [Option.some.injEq, reduceCtorEq] at h
      subst h
      simp [consumed, Focus.tokens]
  | colon members key =>
      simp only [advance] at h
      split at h <;> simp only [Option.some.injEq, reduceCtorEq] at h
      subst h
      simp [consumed, Focus.tokens, Open.tokens]
  | done v =>
      simp only [advance] at h
      split at h <;> simp only [Option.some.injEq, reduceCtorEq] at h <;> subst h
      · simp [consumed, Focus.tokens, Open.tokens]
      · simp [consumed, Focus.tokens, Open.tokens, Value.tokens_array, intercalate_concat]
      · simp [consumed, Focus.tokens, Open.tokens, Member.tokens, membersSoFar]
      · simp [consumed, Focus.tokens, Open.tokens, Member.tokens, membersSoFar,
          Value.tokens_object, intercalate_concat]

/-- What the reader has taken in is what it was given. -/
theorem consumed_foldlM {state state' : Focus × List Open} {ts : List Token}
    (h : ts.foldlM advance state = some state') : consumed state' = consumed state ++ ts := by
  induction ts generalizing state with
  | nil =>
      obtain rfl := Option.some.inj h
      exact (List.append_nil _).symm
  | cons t ts ih =>
      rw [List.foldlM_cons] at h
      obtain ⟨next, hnext, hrest⟩ := Option.bind_eq_some_iff.mp h
      rw [ih hrest, consumed_advance hnext, List.append_assoc, List.singleton_append]

theorem tokens_of_ofTokens? {ts : List Token} {v : Value} (h : ofTokens? ts = some v) :
    v.tokens = ts := by
  unfold ofTokens? at h
  split at h
  · rename_i w hfold
    obtain rfl := Option.some.inj h
    simpa [consumed, Focus.tokens] using consumed_foldlM hfold
  · exact absurd h (by simp)

/-! ### Every value is read back -/

/-- Whether the reader, given a value's tokens, has that value, whatever is open around it. -/
def Value.IsRead (v : Value) : Prop :=
  ∀ stack, v.tokens.foldlM advance (.value, stack) = some (.done v, stack)

theorem foldlM_tokens {v : Value} (h : v.IsRead) (stack : List Open) (ts : List Token) :
    (v.tokens ++ ts).foldlM advance (.value, stack) = ts.foldlM advance (.done v, stack) := by
  rw [List.foldlM_append, h stack]
  rfl

/-- A member's value is read above the object that waits for it. -/
theorem foldlM_member {m : Member} (h : m.2.IsRead) (members : List Member) (stack : List Open)
    (ts : List Token) :
    (m.tokens ++ ts).foldlM advance (.name members, stack) =
      ts.foldlM advance (.done m.2, .object members m.1 :: stack) := by
  have hname : advance (.name members, stack) (.text m.1) = some (.colon members m.1, stack) := rfl
  have hcolon : advance (.colon members m.1, stack) .colon =
      some (.value, .object members m.1 :: stack) := rfl
  simp only [Member.tokens, List.cons_append, List.foldlM_cons, hname, hcolon,
    Option.bind_eq_bind, Option.bind_some, foldlM_tokens h]

/-- The first item stands where the array could end, and no value starts like that. -/
theorem foldlM_firstItem (v : Value) (stack : List Open) (ts : List Token) :
    (v.tokens ++ ts).foldlM advance (.arrayStart, stack) =
      (v.tokens ++ ts).foldlM advance (.value, .array [] :: stack) := by
  cases v <;> simp [Value.tokens, advance]

/-- A first name is taken as any later one. -/
theorem foldlM_firstMember (m : Member) (stack : List Open) (ts : List Token) :
    (m.tokens ++ ts).foldlM advance (.objectStart, stack) =
      (m.tokens ++ ts).foldlM advance (.name [], stack) := by
  simp [Member.tokens, advance]

/-- Items behind a first one are read up to the bracket that closes the array. -/
theorem foldlM_items {vs : List Value} (h : ∀ w ∈ vs, w.IsRead) (v : Value) (items : List Value)
    (stack : List Open) :
    List.foldlM advance (.done v, .array items :: stack)
        ((vs.map Value.tokens).flatMap ([.comma] ++ ·) ++ [.closeBracket]) =
      some (.done (.array (items.reverse ++ v :: vs)), stack) := by
  induction vs generalizing v items with
  | nil => simp [advance]
  | cons w vs ih =>
      have hrest := ih (fun u hu => h u (List.mem_cons_of_mem w hu)) w (v :: items)
      have hcomma : advance (.done v, .array items :: stack) .comma =
          some (.value, .array (v :: items) :: stack) := rfl
      rw [List.map_cons, List.flatMap_cons, List.append_assoc, List.append_assoc,
        List.singleton_append, List.foldlM_cons, hcomma]
      rw [Option.bind_eq_bind, Option.bind_some, foldlM_tokens (h w List.mem_cons_self), hrest]
      simp

/-- Members behind a first one are read up to the brace that closes the object. -/
theorem foldlM_members {ms : List Member} (h : ∀ m ∈ ms, m.2.IsRead) (m : Member)
    (members : List Member) (stack : List Open) :
    List.foldlM advance (.done m.2, .object members m.1 :: stack)
        ((ms.map Member.tokens).flatMap ([.comma] ++ ·) ++ [.closeBrace]) =
      some (.done (.object (members.reverse ++ m :: ms)), stack) := by
  induction ms generalizing m members with
  | nil => simp [advance]
  | cons n ms ih =>
      have hrest := ih (fun u hu => h u (List.mem_cons_of_mem n hu)) n (m :: members)
      have hcomma : advance (.done m.2, .object members m.1 :: stack) .comma =
          some (.name (m :: members), stack) := rfl
      rw [List.map_cons, List.flatMap_cons, List.append_assoc, List.append_assoc,
        List.singleton_append, List.foldlM_cons, hcomma]
      rw [Option.bind_eq_bind, Option.bind_some, foldlM_member (h n List.mem_cons_self), hrest]
      simp

theorem Value.isRead (v : Value) : v.IsRead := by
  induction v using Value.tokens.induct with
  | case1 | case2 | case3 | case4 =>
      intro stack
      simp [tokens, advance, beginValue]
  | case5 items ih =>
      intro stack
      have hopen : advance (.value, stack) .openBracket = some (.arrayStart, stack) := rfl
      rw [tokens_array, List.cons_append, List.foldlM_cons, hopen, Option.bind_eq_bind,
        Option.bind_some]
      cases items with
      | nil => simp [advance]
      | cons v vs =>
          rw [List.map_cons, intercalate_cons, List.append_assoc, foldlM_firstItem,
            foldlM_tokens (ih v List.mem_cons_self),
            foldlM_items (fun w hw => ih w (List.mem_cons_of_mem v hw))]
          simp
  | case6 members ih =>
      intro stack
      have hopen : advance (.value, stack) .openBrace = some (.objectStart, stack) := rfl
      rw [tokens_object, List.cons_append, List.foldlM_cons, hopen, Option.bind_eq_bind,
        Option.bind_some]
      cases members with
      | nil => simp [advance]
      | cons m ms =>
          rw [List.map_cons, intercalate_cons, List.append_assoc, foldlM_firstMember,
            foldlM_member (ih m List.mem_cons_self),
            foldlM_members (fun n hn => ih n (List.mem_cons_of_mem m hn))]
          simp

/-- A row of tokens reads as a value exactly if the value writes it. -/
theorem ofTokens?_eq_some_iff {ts : List Token} {v : Value} :
    ofTokens? ts = some v ↔ ts = v.tokens := by
  constructor
  · intro h
    exact (tokens_of_ofTokens? h).symm
  · rintro rfl
    rw [ofTokens?, v.isRead []]

end Json

end Nmos6502
