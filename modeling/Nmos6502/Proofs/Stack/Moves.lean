/-
Pushes and pulls in any number and order.

The stack page is a ring, and pushes and pulls walk around it in opposite directions.  A
cell is therefore best named from where the last push has left the stack pointer: the
`i`-th cell above it holds the byte pushed last but `i`, `get_pushAll_above`, for as many
bytes as were pushed or as there are cells, and beyond that what it held before.  A row of
pulls reads the cells in just that order, `pullAll_eq`, and comes round after 256 of them.

Where pushes and pulls mix, only the height of the stack matters.  `Balanced` are the moves
that never take off more than they have put on, and all of it in the end; while there is
room for what they put on, what was on the stack before them stays, `above_moves`.
-/
import Nmos6502.Proofs.Stack.Frames

namespace Nmos6502

namespace Machine

/-! ### Rows of pulls -/

section

variable {σ : Type} [Bus σ]

/-- So many pulls one after the other: the bytes in the order in which they come. -/
def pullAll (m : Machine σ) : Nat → List Byte × Machine σ
  | 0 => ([], m)
  | n + 1 =>
    let (v, m) := m.pull
    let (vs, m) := m.pullAll n
    (v :: vs, m)

/-- Pulls read the cells above the stack pointer one after the other, and write nothing. -/
theorem pullAll_eq (m : Machine σ) (n : Nat) :
    m.pullAll n =
      ((List.range n).map fun i => Bus.read m.bus (stackCell (m.sp + UInt8.ofNat (i + 1))),
        { m with sp := m.sp + UInt8.ofNat n }) := by
  induction n generalizing m with
  | zero =>
      show ([], m) = ([], { m with sp := m.sp + 0 })
      rw [UInt8.add_zero]
  | succ n ih =>
      have hsp : m.sp + UInt8.ofNat (n + 1) = m.pull.2.sp + UInt8.ofNat n := add_ofNat_succ _ _
      have hnext : ∀ i, m.sp + UInt8.ofNat (i + 1 + 1) = m.pull.2.sp + UInt8.ofNat (i + 1) :=
        fun i => add_ofNat_succ _ _
      show (m.pull.1 :: (m.pull.2.pullAll n).1, (m.pull.2.pullAll n).2) = _
      rw [ih, hsp, List.range_succ_eq_map, List.map_cons, List.map_map]
      refine Prod.ext (congrArg (m.pull.1 :: ·) ?_) rfl
      refine List.map_congr_left fun i _ => ?_
      show _ = Bus.read m.bus (stackCell (m.sp + UInt8.ofNat (i + 1 + 1)))
      rw [hnext]
      rfl

/-! ### Rows of pushes -/

/-- Pushing bytes in their order puts the last of them on top. -/
theorem foldl_push (m : Machine σ) (bs : List Byte) : bs.foldl push m = m.pushAll bs.reverse := by
  induction bs generalizing m with
  | nil => rfl
  | cons b bs ih =>
      rw [List.foldl_cons, ih, List.reverse_cons]
      generalize bs.reverse = cs
      induction cs with
      | nil => rfl
      | cons c cs ih => rw [List.cons_append, pushAll, pushAll, ih]

/-- Pushes move the stack pointer and write over the bus. -/
theorem pushAll_eq (m : Machine σ) (bs : List Byte) :
    m.pushAll bs = { m with sp := (m.pushAll bs).sp, bus := (m.pushAll bs).bus } := by
  induction bs with
  | nil => rfl
  | cons b bs ih =>
      show (m.pushAll bs).push b = _
      rw [ih]
      rfl

end

/-- Nothing is read where the ring comes round to the stack pointer itself. -/
theorem stackCell_add_ne {sp : Byte} {i : Nat} (hpos : 0 < i) (hi : i < 256) :
    stackCell sp ≠ stackCell (sp + UInt8.ofNat i) := by
  intro h
  have hsp := congrArg UInt8.toNat (stackCell_injective h)
  rw [UInt8.toNat_add, UInt8.toNat_ofNat'] at hsp
  have hlt := sp.toNat_lt
  omega

/-- The stack keeps to page one. -/
theorem stackCell_mem_page (p : Byte) : 0x0100 ≤ stackCell p ∧ stackCell p ≤ 0x01FF := by
  have hlt := p.toNat_lt
  rw [UInt16.le_iff_toNat_le, UInt16.le_iff_toNat_le, toNat_stackCell]
  show 256 ≤ 256 + p.toNat ∧ 256 + p.toNat ≤ 511
  omega

/-- **The cells above the stack pointer hold what was pushed, the last byte first**, and
beyond that what they held before. -/
theorem get_pushAll_above (m : Machine Memory) (bs : List Byte) {i : Nat} (hi : i < 256) :
    let cell := stackCell ((m.pushAll bs).sp + UInt8.ofNat (i + 1))
    (m.pushAll bs).bus.get cell = bs[i]?.getD (m.bus.get cell) := by
  induction bs generalizing i with
  | nil => rfl
  | cons b bs ih =>
      intro cell
      have hsp : (m.pushAll (b :: bs)).sp = (m.pushAll bs).sp - 1 := rfl
      have hcell : cell = stackCell ((m.pushAll bs).sp + UInt8.ofNat i) := by
        show stackCell ((m.pushAll (b :: bs)).sp + UInt8.ofNat (i + 1)) = _
        rw [add_ofNat_succ, hsp, UInt8.sub_add_cancel]
      rw [hcell]
      show ((m.pushAll bs).bus.set (stackCell (m.pushAll bs).sp) b).get _ = _
      cases i with
      | zero =>
          show ((m.pushAll bs).bus.set _ b).get (stackCell ((m.pushAll bs).sp + 0)) = b
          rw [UInt8.add_zero, Memory.get_set_self]
      | succ i =>
          rw [Memory.get_set_ne _ (stackCell_add_ne i.succ_pos hi), List.getElem?_cons_succ]
          exact ih (Nat.lt_of_succ_lt hi)

end Machine

/-! ### Moves -/

/-- What can be done to a stack. -/
inductive StackMove
  | push (v : Byte)
  | pushWord (w : Address)
  | pull
  | pullWord
  deriving DecidableEq, Repr

/--
Moves on a stack of some height that leave it empty, take nothing off where there is
nothing, and find room for everything that they put on.
-/
def Balanced (room : Nat) : Nat → List StackMove → Prop
  | height, [] => height = 0
  | height, .push _ :: ms => height + 1 ≤ room ∧ Balanced room (height + 1) ms
  | height, .pushWord _ :: ms => height + 2 ≤ room ∧ Balanced room (height + 2) ms
  | height, .pull :: ms => 1 ≤ height ∧ Balanced room (height - 1) ms
  | height, .pullWord :: ms => 2 ≤ height ∧ Balanced room (height - 2) ms

instance decidableBalanced (room : Nat) :
    ∀ (height : Nat) (ms : List StackMove), Decidable (Balanced room height ms)
  | height, [] => inferInstanceAs (Decidable (height = 0))
  | height, .push _ :: ms =>
      have := decidableBalanced room (height + 1) ms
      inferInstanceAs (Decidable (_ ∧ _))
  | height, .pushWord _ :: ms =>
      have := decidableBalanced room (height + 2) ms
      inferInstanceAs (Decidable (_ ∧ _))
  | height, .pull :: ms =>
      have := decidableBalanced room (height - 1) ms
      inferInstanceAs (Decidable (_ ∧ _))
  | height, .pullWord :: ms =>
      have := decidableBalanced room (height - 2) ms
      inferInstanceAs (Decidable (_ ∧ _))

namespace Machine

/-- The machine after a move. -/
def move {σ : Type} [Bus σ] (m : Machine σ) : StackMove → Machine σ
  | .push v => m.push v
  | .pushWord w => m.pushWord w
  | .pull => m.pull.2
  | .pullWord => m.pullWord.2

/-! ### What one move does to the stack -/

section

variable {m : Machine Memory} {bs : List Byte}

theorem above_push (v : Byte) (h : m.bus.Above m.sp bs) (hroom : bs.length + 1 ≤ 256) :
    (m.push v).bus.Above (m.push v).sp (v :: bs) :=
  have hlength : [v].length + bs.length ≤ 256 := Nat.add_comm 1 bs.length ▸ hroom
  above_pushAll h hlength

theorem above_pushWord (w : Address) (h : m.bus.Above m.sp bs) (hroom : bs.length + 2 ≤ 256) :
    (m.pushWord w).bus.Above (m.pushWord w).sp (wordBytes w ++ bs) :=
  have hlength : (wordBytes w).length + bs.length ≤ 256 := Nat.add_comm 2 bs.length ▸ hroom
  above_pushAll h hlength

/-- A byte on top is taken off, and the rest stays. -/
theorem above_pull {b : Byte} (h : m.bus.Above m.sp (b :: bs)) :
    m.pull.2.bus.Above m.pull.2.sp bs := h.2

theorem sp_push_add (v : Byte) (n : Nat) :
    (m.push v).sp + UInt8.ofNat (n + 1) = m.sp + UInt8.ofNat n := by
  rw [add_ofNat_succ]
  show m.sp - 1 + 1 + UInt8.ofNat n = _
  rw [UInt8.sub_add_cancel]

theorem sp_pull_add (n : Nat) : m.pull.2.sp + UInt8.ofNat n = m.sp + UInt8.ofNat (n + 1) :=
  (add_ofNat_succ m.sp n).symm

end

/-- **Balanced moves leave what was on the stack before them**, if there is room for both. -/
theorem above_moves {room : Nat} {cs : List Byte} (hroom : room + cs.length ≤ 256)
    {ms : List StackMove} : ∀ {m : Machine Memory} {bs : List Byte},
      Balanced room bs.length ms → m.bus.Above m.sp (bs ++ cs) →
      (ms.foldl move m).bus.Above (ms.foldl move m).sp cs ∧
        (ms.foldl move m).sp = m.sp + UInt8.ofNat bs.length := by
  induction ms with
  | nil =>
      intro m bs hbalanced habove
      obtain rfl := List.length_eq_zero_iff.mp hbalanced
      exact ⟨habove, (UInt8.add_zero m.sp).symm⟩
  | cons move ms ih =>
      intro m bs hbalanced habove
      have hlength : (bs ++ cs).length = bs.length + cs.length := List.length_append
      cases move with
      | push v =>
          obtain ⟨hheight, hrest⟩ := hbalanced
          have hfits : (bs ++ cs).length + 1 ≤ 256 := by omega
          have hrest' : Balanced room (v :: bs).length ms := hrest
          obtain ⟨hend, hsp⟩ := ih hrest' (above_push v habove hfits)
          exact ⟨hend, hsp.trans (sp_push_add v bs.length)⟩
      | pushWord w =>
          obtain ⟨hheight, hrest⟩ := hbalanced
          have hfits : (bs ++ cs).length + 2 ≤ 256 := by omega
          have hrest' : Balanced room (wordBytes w ++ bs).length ms := hrest
          obtain ⟨hend, hsp⟩ := ih hrest' (above_pushWord w habove hfits)
          refine ⟨hend, hsp.trans ?_⟩
          exact (sp_push_add _ (bs.length + 1)).trans (sp_push_add _ bs.length)
      | pull =>
          obtain ⟨hheight, hrest⟩ := hbalanced
          obtain ⟨b, bs, rfl⟩ := List.exists_cons_of_length_pos hheight
          obtain ⟨hend, hsp⟩ := ih hrest (above_pull habove)
          exact ⟨hend, hsp.trans (sp_pull_add bs.length)⟩
      | pullWord =>
          obtain ⟨hheight, hrest⟩ := hbalanced
          obtain ⟨b, bs, rfl⟩ := List.exists_cons_of_length_pos (Nat.lt_of_succ_lt hheight)
          obtain ⟨c, bs, rfl⟩ := List.exists_cons_of_length_pos (Nat.lt_of_succ_lt_succ hheight)
          obtain ⟨hend, hsp⟩ := ih hrest (above_pull (above_pull habove))
          refine ⟨hend, hsp.trans ?_⟩
          exact (sp_pull_add bs.length).trans (sp_pull_add (bs.length + 1))

/-- A word comes back over whatever balanced moves there are between. -/
theorem pullWord_of_balanced (m : Machine Memory) (w : Address) {room : Nat}
    {ms : List StackMove} (hroom : room + 2 ≤ 256) (hbalanced : Balanced room 0 ms) :
    (ms.foldl move (m.pushWord w)).pullWord.1 = w ∧
      (ms.foldl move (m.pushWord w)).pullWord.2.sp = m.sp := by
  have hempty : m.bus.Above m.sp [] := trivial
  have habove : (m.pushWord w).bus.Above (m.pushWord w).sp ([] ++ wordBytes w) :=
    above_pushWord w hempty (by decide)
  obtain ⟨hend, hsp⟩ := above_moves hroom hbalanced habove
  rw [pullWord_eq]
  refine ⟨stackWord_of_above hend, ?_⟩
  show (ms.foldl move (m.pushWord w)).sp + 2 = m.sp
  rw [hsp]
  show m.sp - 1 - 1 + 0 + UInt8.ofNat (1 + 1) = m.sp
  rw [UInt8.add_zero, add_ofNat_succ, UInt8.sub_add_cancel]
  exact UInt8.sub_add_cancel _ _

/-! ### Pushes and then pulls -/

/-- What pulls give after pushes, by the place of the pull in its round of the ring. -/
theorem getElem?_pullAll_pushAll (m : Machine Memory) (bs : List Byte) {n i : Nat} (hi : i < n) :
    let cell := stackCell ((m.pushAll bs).sp + UInt8.ofNat (i % 256 + 1))
    ((m.pushAll bs).pullAll n).1[i]? = some (bs[i % 256]?.getD (m.bus.get cell)) := by
  intro cell
  have hround : UInt8.ofNat (i + 1) = UInt8.ofNat (i % 256 + 1) := by
    apply UInt8.toNat_inj.mp
    rw [UInt8.toNat_ofNat', UInt8.toNat_ofNat']
    omega
  rw [← get_pushAll_above m bs (Nat.mod_lt i (by decide)), pullAll_eq, List.getElem?_map,
    List.getElem?_range hi, Option.map_some, hround]
  rfl

/-- Pushes carry the stack pointer down by their number. -/
theorem sp_eq_foldl_push (m : Machine Memory) (bs : List Byte) :
    m.sp = (bs.foldl push m).sp + UInt8.ofNat bs.length := by
  rw [foldl_push, ← List.length_reverse]
  exact sp_pushAll m bs.reverse

theorem toNat_sp_foldl_push (m : Machine Memory) (bs : List Byte) :
    ((bs.foldl push m).sp.toNat : Int) = (m.sp.toNat - bs.length) % 256 := by
  have hlt := (bs.foldl push m).sp.toNat_lt
  rw [sp_eq_foldl_push m bs, UInt8.toNat_add, UInt8.toNat_ofNat']
  omega

/-- What pushes change lies in page one. -/
theorem page_of_foldl_push {m : Machine Memory} {bs : List Byte} {a : Address}
    (ha : (bs.foldl push m).bus.get a ≠ m.bus.get a) : 0x0100 ≤ a ∧ a ≤ 0x01FF := by
  by_cases hpage : 0x0100 ≤ a ∧ a ≤ 0x01FF
  · exact hpage
  · have hcell : ∀ p, stackCell p ≠ a := by
      rintro p rfl
      exact hpage (stackCell_mem_page p)
    rw [foldl_push] at ha
    exact absurd (get_pushAll m hcell _) ha

/-- Going up and going down from a cell meet only after a whole round. -/
theorem add_ofNat_ne_sub {p : Byte} {i j : Nat} (hi : 0 < i) (hround : i + j < 256) :
    p + UInt8.ofNat i ≠ p - UInt8.ofNat j := by
  intro h
  have hnat := congrArg UInt8.toNat h
  simp only [UInt8.toNat_sub, UInt8.toNat_add, UInt8.toNat_ofNat'] at hnat
  have hlt := p.toNat_lt
  omega

/-- The stack pointer of a pull, told from where the pushes started. -/
theorem foldl_push_sp_add {m : Machine Memory} {bs : List Byte} {r : Nat} (hle : bs.length ≤ r) :
    (bs.foldl push m).sp + UInt8.ofNat (r + 1) = m.sp + UInt8.ofNat (r + 1 - bs.length) := by
  have hsp := sp_eq_foldl_push m bs
  apply UInt8.toNat_inj.mp
  rw [hsp]
  simp only [UInt8.toNat_add, UInt8.toNat_ofNat']
  omega

/--
**The stack is a ring of 256 cells.**  Push any number of bytes in order: the stack pointer
goes down by so many, modulo 256, nothing changes outside the stack page, and of the
processor nothing else.  Pull any number then, one after the other.  Of each 256 pulls the
first give the bytes in reverse, as many as there were or are left of them; any further
ones read cells that were never pushed to, and that hold what they held before.  As many
pulls as pushes bring the stack pointer back.  A word that is pushed comes back exactly
over all moves that keep to themselves and find room, two bytes of the ring being taken.
-/
theorem stack_ring (m : Machine Memory) (bs : List Byte) :
    let pushed := bs.foldl push m
    (pushed.sp.toNat : Int) = (m.sp.toNat - bs.length) % 256 ∧
    (∀ a, pushed.bus.get a ≠ m.bus.get a → 0x0100 ≤ a ∧ a ≤ 0x01FF) ∧
    pushed = { m with sp := pushed.sp, bus := pushed.bus } ∧
    (∀ n i, i < n →
      (i % 256 < bs.length →
        (pushed.pullAll n).1[i]? = bs[bs.length - 1 - i % 256]?) ∧
      (bs.length ≤ i % 256 →
        let p := m.sp + UInt8.ofNat (i % 256 + 1 - bs.length)
        (∀ j < bs.length, p ≠ m.sp - UInt8.ofNat j) ∧
          (pushed.pullAll n).1[i]? = some (m.bus.get (stackCell p)))) ∧
    (∀ n, (pushed.pullAll n).1.length = n ∧
      (pushed.pullAll n).2 = { pushed with sp := pushed.sp + UInt8.ofNat n }) ∧
    (pushed.pullAll bs.length).2.sp = m.sp ∧
    ∀ w room ms, room + 2 ≤ 256 → Balanced room 0 ms →
      (ms.foldl move (m.pushWord w)).pullWord.1 = w ∧
        (ms.foldl move (m.pushWord w)).pullWord.2.sp = m.sp := by
  intro pushed
  have hpushed : pushed = m.pushAll bs.reverse := foldl_push m bs
  refine ⟨toNat_sp_foldl_push m bs, fun a ha => page_of_foldl_push ha, ?_, ?_, ?_, ?_,
    fun w room ms hroom hbalanced => pullWord_of_balanced m w hroom hbalanced⟩
  · rw [hpushed]
    exact pushAll_eq m bs.reverse
  · intro n i hi
    have hpull := getElem?_pullAll_pushAll m bs.reverse hi
    rw [← hpushed] at hpull
    refine ⟨?_, ?_⟩
    · intro hlt
      rw [hpull, List.getElem?_reverse hlt, List.getElem?_eq_getElem (by omega)]
      rfl
    · intro hle p
      have hp : pushed.sp + UInt8.ofNat (i % 256 + 1) = p := foldl_push_sp_add hle
      have hbehind : bs.reverse[i % 256]? = none := by
        rwa [List.getElem?_eq_none_iff, List.length_reverse]
      refine ⟨fun j hj => add_ofNat_ne_sub (by omega) (by omega), ?_⟩
      rw [hpull, hbehind, hp]
      rfl
  · intro n
    rw [pullAll_eq, List.length_map, List.length_range]
    exact ⟨rfl, rfl⟩
  · rw [pullAll_eq]
    exact (sp_eq_foldl_push m bs).symm

/-- A machine whose stack pointer is about to come round. -/
def descending : Machine Memory := { blank (Memory.zero.set 0x0104 0xEE) with sp := 0x01 }

/--
Of 300 bytes the last 256 come back and then come back again; above three bytes lies what
was there; and a word comes back over moves that take all but two cells of the ring.
-/
theorem stack_ring_descending :
    let bs := (List.range 300).map UInt8.ofNat
    let ms := List.replicate 127 (.pushWord 0xABCD) ++ List.replicate 254 .pull
    (555 < 600 ∧ 555 % 256 < bs.length ∧
      ((bs.foldl push descending).pullAll 600).1[555]? = some 0) ∧
    (5 < 7 ∧ [(1 : Byte), 2, 3].length ≤ 5 % 256 ∧
      (([(1 : Byte), 2, 3].foldl push descending).pullAll 7).1[5]? = some 0xEE) ∧
    254 + 2 ≤ 256 ∧ Balanced 254 0 ms ∧
    (ms.foldl move (descending.pushWord 0x1234)).pullWord.1 = 0x1234 := by
  intro bs ms
  obtain ⟨-, -, -, hmany, -, -, hword⟩ := stack_ring descending bs
  obtain ⟨-, -, -, hfew, -⟩ := stack_ring descending [1, 2, 3]
  have hbalanced : Balanced 254 0 ms := by decide +kernel
  have hlength : bs.length = 300 := by simp [bs]
  have hlast : bs[bs.length - 1 - 555 % 256]? = some 0 := by simp [bs]
  have hbehind : descending.bus.get (stackCell (0x01 + UInt8.ofNat 3)) = 0xEE := by
    simp [descending, blank, stackCell, stackPage]
  have hbelow : 555 % 256 < bs.length := by rw [hlength]; decide
  refine ⟨⟨by decide, hbelow, ?_⟩, ⟨by decide, by decide, ?_⟩, by decide, hbalanced, ?_⟩
  · rw [(hmany 600 555 (by decide)).1 hbelow, hlast]
  · rw [((hfew 7 5 (by decide)).2 (by decide)).2]
    exact congrArg some hbehind
  · exact (hword 0x1234 254 ms (by decide) hbalanced).1

end Machine

end Nmos6502
