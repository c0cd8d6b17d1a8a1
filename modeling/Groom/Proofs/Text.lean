import Mathlib.Tactic.SplitIfs
import Groom.FileSystem

/-! The bytes of a text. A byte string falls into characters and ill-formed stretches, each of these
as long as the start of a character can be. It is read as a text exactly if it is what the text is
written as. It is shown with one replacement character for each ill-formed stretch, and so a text is
shown as it is. Cut at a byte that is a character of its own, a text falls into texts. -/
namespace Groom

namespace Bytes

theorem ofString_eq (s : String) : ofString s = s.toList.flatMap String.utf8EncodeChar := by
  have hbytes : s.toByteArray = s.toList.utf8Encode := by
    rw [← String.toByteArray_ofList, String.ofList_toList]
  calc ofString s = s.toByteArray.data.toList := rfl
    _ = s.toList.flatMap String.utf8EncodeChar := by
      rw [hbytes, List.utf8Encode, List.data_toByteArray]

theorem ofString_append (s t : String) : ofString (s ++ t) = ofString s ++ ofString t := by
  simp only [ofString_eq, String.toList_append, List.flatMap_append]

end Bytes

namespace Utf8

variable {b : UInt8} {p : Begun} {bs front : Bytes}

/-- How a character of two bytes or more begins: with these bits, so many bytes still owed, and
these bounds of the next one. -/
def Opens (b : UInt8) (p : Begun) : Prop :=
  (0xC2 ≤ b.toNat ∧ b.toNat < 0xE0 ∧ p.bits = b.toNat - 0xC0 ∧ p.owed = 1 ∧
    p.low.toNat = 0x80 ∧ p.high.toNat = 0xBF) ∨
  (0xE0 ≤ b.toNat ∧ b.toNat < 0xF0 ∧ p.bits = b.toNat - 0xE0 ∧ p.owed = 2 ∧
    ((b.toNat = 0xE0 ∧ p.low.toNat = 0xA0) ∨ (b.toNat ≠ 0xE0 ∧ p.low.toNat = 0x80)) ∧
    ((b.toNat = 0xED ∧ p.high.toNat = 0x9F) ∨ (b.toNat ≠ 0xED ∧ p.high.toNat = 0xBF))) ∨
  (0xF0 ≤ b.toNat ∧ b.toNat < 0xF5 ∧ p.bits = b.toNat - 0xF0 ∧ p.owed = 3 ∧
    ((b.toNat = 0xF0 ∧ p.low.toNat = 0x90) ∨ (b.toNat ≠ 0xF0 ∧ p.low.toNat = 0x80)) ∧
    ((b.toNat = 0xF4 ∧ p.high.toNat = 0x8F) ∨ (b.toNat ≠ 0xF4 ∧ p.high.toNat = 0xBF)))

/-- What it means that a byte is classified so. -/
def Lead.Suits (b : UInt8) : Lead → Prop
  | .char c => b.toNat < 0x80 ∧ c = Char.ofNat b.toNat
  | .begins p => Opens b p
  | .stray => (0x80 ≤ b.toNat ∧ b.toNat < 0xC2) ∨ 0xF5 ≤ b.toNat

theorem lead_suits (b : UInt8) : (lead b).Suits b := by
  have hlt (n : UInt8) : b < n ↔ b.toNat < n.toNat := Iff.rfl
  have heq (n : UInt8) : b = n ↔ b.toNat = n.toNat := UInt8.toNat_inj.symm
  simp only [lead, hlt, heq]
  split_ifs <;> simp_all [Lead.Suits, Opens] <;> omega

/-- A byte within the bounds ends the character that has begun, or it goes on with it. -/
theorem go_next {rest : Bytes} (h : p.low.toNat ≤ b.toNat ∧ b.toNat ≤ p.high.toNat) :
    units.go (some p) (b :: rest) =
      if p.owed ≤ 1 then some (Char.ofNat (p.bits * 64 + (b.toNat - 0x80))) :: units.go none rest
      else units.go (some ⟨p.bits * 64 + (b.toNat - 0x80), p.owed - 1, 0x80, 0xBF⟩) rest := by
  have hb : p.low ≤ b ∧ b ≤ p.high := h
  simp only [units.go, if_pos hb]

/-- The bytes that go on with a character, from the second one or the third on. -/
def Tail (b : UInt8) : Prop := 0x80 ≤ b.toNat ∧ b.toNat ≤ 0xBF

theorem go_tail {bits owed : Nat} {rest : Bytes} (h : Tail b) :
    units.go (some ⟨bits, owed, 0x80, 0xBF⟩) (b :: rest) =
      if owed ≤ 1 then some (Char.ofNat (bits * 64 + (b.toNat - 0x80))) :: units.go none rest
      else units.go (some ⟨bits * 64 + (b.toNat - 0x80), owed - 1, 0x80, 0xBF⟩) rest :=
  go_next h

/-- Bytes with which a character begins, and what they say about it. -/
inductive Begins : Bytes → Begun → Prop where
  | first {b : UInt8} {p : Begun} (h : Opens b p) : Begins [b] p
  | next {front : Bytes} {p : Begun} {b : UInt8} (h : Begins front p) (howed : 1 < p.owed)
      (hb : p.low ≤ b ∧ b ≤ p.high) :
      Begins (front ++ [b]) ⟨p.bits * 64 + (b.toNat - 0x80), p.owed - 1, 0x80, 0xBF⟩

theorem toNat_ofNat_of_valid {n : Nat} (h : n.isValidChar) : (Char.ofNat n).val.toNat = n := by
  rw [Char.ofNat, dif_pos h]
  rfl

theorem ofNat_eq_iff {n : Nat} {b : UInt8} : UInt8.ofNat n = b ↔ n % 256 = b.toNat := by
  rw [← UInt8.toNat_inj, UInt8.toNat_ofNat']

section

variable {a c d : UInt8}

theorem encode_two (h : Opens a p) (howed : p.owed ≤ 1)
    (hb : p.low.toNat ≤ b.toNat ∧ b.toNat ≤ p.high.toNat) :
    String.utf8EncodeChar (Char.ofNat (p.bits * 64 + (b.toNat - 0x80))) = [a, b] := by
  unfold Opens at h
  have hvalid : Nat.isValidChar (p.bits * 64 + (b.toNat - 0x80)) := by
    unfold Nat.isValidChar
    omega
  rw [String.utf8EncodeChar, toNat_ofNat_of_valid hvalid]
  rw [if_neg (by omega), if_pos (by omega)]
  simp only [List.cons.injEq, ofNat_eq_iff, and_true]
  omega

theorem encode_three (h : Opens a p) (howed : p.owed = 2)
    (hb : p.low.toNat ≤ b.toNat ∧ b.toNat ≤ p.high.toNat) (hc : Tail c) :
    String.utf8EncodeChar
      (Char.ofNat ((p.bits * 64 + (b.toNat - 0x80)) * 64 + (c.toNat - 0x80))) = [a, b, c] := by
  unfold Opens at h
  unfold Tail at hc
  have hvalid : Nat.isValidChar ((p.bits * 64 + (b.toNat - 0x80)) * 64 + (c.toNat - 0x80)) := by
    unfold Nat.isValidChar
    omega
  rw [String.utf8EncodeChar, toNat_ofNat_of_valid hvalid]
  rw [if_neg (by omega), if_neg (by omega), if_pos (by omega)]
  simp only [List.cons.injEq, ofNat_eq_iff, and_true]
  omega

theorem encode_four (h : Opens a p) (howed : p.owed = 3)
    (hb : p.low.toNat ≤ b.toNat ∧ b.toNat ≤ p.high.toNat) (hc : Tail c) (hd : Tail d) :
    String.utf8EncodeChar (Char.ofNat
      (((p.bits * 64 + (b.toNat - 0x80)) * 64 + (c.toNat - 0x80)) * 64 + (d.toNat - 0x80))) =
      [a, b, c, d] := by
  unfold Opens at h
  unfold Tail at hc hd
  have hvalid : Nat.isValidChar
      (((p.bits * 64 + (b.toNat - 0x80)) * 64 + (c.toNat - 0x80)) * 64 + (d.toNat - 0x80)) := by
    unfold Nat.isValidChar
    omega
  rw [String.utf8EncodeChar, toNat_ofNat_of_valid hvalid]
  rw [if_neg (by omega), if_neg (by omega), if_neg (by omega)]
  simp only [List.cons.injEq, ofNat_eq_iff, and_true]
  omega

end

theorem Begins.owed_le {front : Bytes} (h : Begins front p) : p.owed + front.length ≤ 4 := by
  induction h with
  | first h =>
    unfold Opens at h
    rw [List.length_singleton]
    omega
  | @next front q b _ howed _ ih =>
    rw [List.length_append, List.length_singleton]
    show q.owed - 1 + (front.length + 1) ≤ 4
    omega

/-- A character is written as the bytes with which it began and the one that ended it. -/
theorem encode_of_begins {front : Bytes} (h : Begins front p) (howed : p.owed ≤ 1)
    (hb : p.low ≤ b ∧ b ≤ p.high) :
    String.utf8EncodeChar (Char.ofNat (p.bits * 64 + (b.toNat - 0x80))) = front ++ [b] := by
  -- a character has four bytes at most, so three of them come before the last one
  cases h with
  | first h => exact encode_two h howed hb
  | @next _ q a h howed' ha =>
    cases h with
    | first h =>
      have htwo : q.owed = 2 := by
        dsimp only at howed
        omega
      exact encode_three h htwo ha hb
    | @next _ q₁ a₁ h howed₁ ha₁ =>
      cases h with
      | first h =>
        have hthree : q₁.owed = 3 := by
          unfold Opens at h
          dsimp only at howed howed'
          omega
        exact encode_four h hthree ha₁ ha hb
      | @next front q₂ a₂ h howed₂ ha₂ =>
        have hfour := h.owed_le
        have hlength : 0 < front.length := by
          cases h <;> simp
        dsimp only at howed' howed₁
        omega

theorem encode_one (h : b.toNat < 0x80) : String.utf8EncodeChar (Char.ofNat b.toNat) = [b] := by
  have hvalid : b.toNat.isValidChar := by
    unfold Nat.isValidChar
    omega
  rw [String.utf8EncodeChar, toNat_ofNat_of_valid hvalid]
  rw [if_pos (by omega), UInt8.ofNat_toNat]

/-- The bytes that a character is written as. -/
theorem encode_cases (ch : Char) :
    (∃ a, String.utf8EncodeChar ch = [a] ∧ ch.toNat < 0x80 ∧ a.toNat = ch.toNat) ∨
    (∃ a b, String.utf8EncodeChar ch = [a, b] ∧ 0x80 ≤ ch.toNat ∧ ch.toNat < 0x800 ∧
      a.toNat = ch.toNat / 64 + 0xC0 ∧ b.toNat = ch.toNat % 64 + 0x80) ∨
    (∃ a b c, String.utf8EncodeChar ch = [a, b, c] ∧ 0x800 ≤ ch.toNat ∧ ch.toNat < 0x10000 ∧
      a.toNat = ch.toNat / 4096 + 0xE0 ∧ b.toNat = ch.toNat / 64 % 64 + 0x80 ∧
      c.toNat = ch.toNat % 64 + 0x80) ∨
    ∃ a b c d, String.utf8EncodeChar ch = [a, b, c, d] ∧ 0x10000 ≤ ch.toNat ∧
      a.toNat = ch.toNat / 262144 + 0xF0 ∧ b.toNat = ch.toNat / 4096 % 64 + 0x80 ∧
      c.toNat = ch.toNat / 64 % 64 + 0x80 ∧ d.toNat = ch.toNat % 64 + 0x80 := by
  have hvalid : ch.toNat.isValidChar := ch.valid
  have hbyte {n m : Nat} (h : n % 256 = m) : (UInt8.ofNat n).toNat = m := by
    rw [UInt8.toNat_ofNat', ← h]
  unfold Nat.isValidChar at hvalid
  rw [String.utf8EncodeChar, Char.toNat_val]
  split_ifs with h₁ h₂ h₃
  · exact .inl ⟨_, rfl, by omega, hbyte (by omega)⟩
  · exact .inr (.inl ⟨_, _, rfl, by omega, by omega, hbyte (by omega), hbyte (by omega)⟩)
  · exact .inr (.inr (.inl ⟨_, _, _, rfl, by omega, by omega, hbyte (by omega), hbyte (by omega),
      hbyte (by omega)⟩))
  · exact .inr (.inr (.inr ⟨_, _, _, _, rfl, by omega, hbyte (by omega), hbyte (by omega),
      hbyte (by omega), hbyte (by omega)⟩))

/-- A byte with which a longer character can begin is taken for that. -/
theorem exists_opens (h : 0xC2 ≤ b.toNat) (h' : b.toNat < 0xF5) :
    ∃ p, Opens b p ∧ ∀ rest, units.go none (b :: rest) = units.go (some p) rest := by
  have hsuits := lead_suits b
  cases hlead : lead b with
  | begins p =>
    rw [hlead] at hsuits
    exact ⟨p, hsuits, fun rest => by simp only [units.go, hlead]⟩
  | char c =>
    obtain ⟨hlt, -⟩ : b.toNat < 0x80 ∧ _ := by rwa [hlead] at hsuits
    omega
  | stray =>
    have hstray : (0x80 ≤ b.toNat ∧ b.toNat < 0xC2) ∨ 0xF5 ≤ b.toNat := by rwa [hlead] at hsuits
    omega

/-- A character is read from its bytes, and reading goes on behind them. -/
theorem go_encode (ch : Char) (rest : Bytes) :
    units.go none (String.utf8EncodeChar ch ++ rest) = some ch :: units.go none rest := by
  have hvalid : ch.toNat.isValidChar := ch.valid
  have hchar {n : Nat} (h : n = ch.toNat) : Char.ofNat n = ch := h ▸ Char.ofNat_toNat ch
  unfold Nat.isValidChar at hvalid
  obtain ⟨a, hbytes, hlt, ha⟩ | ⟨a, b, hbytes, hle, hlt, ha, hb⟩ |
    ⟨a, b, c, hbytes, hle, hlt, ha, hb, hc⟩ | ⟨a, b, c, d, hbytes, hle, ha, hb, hc, hd⟩ :=
      encode_cases ch
  · have hsuits := lead_suits a
    cases hlead : lead a with
    | char c =>
      obtain ⟨-, rfl⟩ : _ ∧ c = Char.ofNat a.toNat := by rwa [hlead] at hsuits
      rw [hbytes, List.singleton_append, units.go, hlead]
      dsimp only
      rw [hchar ha]
    | begins p =>
      have hopens : Opens a p := by rwa [hlead] at hsuits
      unfold Opens at hopens
      omega
    | stray =>
      have hstray : (0x80 ≤ a.toNat ∧ a.toNat < 0xC2) ∨ 0xF5 ≤ a.toNat := by rwa [hlead] at hsuits
      omega
  · obtain ⟨p, hopens, hgo⟩ := exists_opens (b := a) (by omega) (by omega)
    unfold Opens at hopens
    simp only [hbytes, List.cons_append, List.nil_append, hgo]
    rw [go_next (by omega), if_pos (by omega), hchar (by omega)]
  · obtain ⟨p, hopens, hgo⟩ := exists_opens (b := a) (by omega) (by omega)
    unfold Opens at hopens
    simp only [hbytes, List.cons_append, List.nil_append, hgo]
    have htail : Tail c := by
      unfold Tail
      omega
    rw [go_next (by omega), if_neg (by omega), go_tail htail, if_pos (by omega), hchar (by omega)]
  · obtain ⟨p, hopens, hgo⟩ := exists_opens (b := a) (by omega) (by omega)
    unfold Opens at hopens
    simp only [hbytes, List.cons_append, List.nil_append, hgo]
    have htail : Tail c ∧ Tail d := by
      unfold Tail
      omega
    rw [go_next (by omega), if_neg (by omega), go_tail htail.1, if_neg (by omega),
      go_tail htail.2, if_pos (by omega), hchar (by omega)]

/-- The bytes of some character start so. -/
def Leads (front : Bytes) : Prop := ∃ c, front <+: String.utf8EncodeChar c

/-- Bytes as characters, with `none` for each ill-formed stretch between them. -/
inductive Stretches : Bytes → List (Option Char) → Prop where
  | nil : Stretches [] []
  | char (c : Char) {rest : Bytes} {us : List (Option Char)} (hrest : Stretches rest us) :
      Stretches (String.utf8EncodeChar c ++ rest) (some c :: us)
  /-- No character is written here. The stretch starts one, or it has a single byte, and it cannot
  be longer. -/
  | illFormed {front rest : Bytes} {us : List (Option Char)}
      (hnone : ∀ c, ¬String.utf8EncodeChar c <+: front ++ rest)
      (hfront : front.length = 1 ∨ front ≠ [] ∧ Leads front)
      (hend : ∀ b more, rest = b :: more → ¬Leads (front ++ [b])) (hrest : Stretches rest us) :
      Stretches (front ++ rest) (none :: us)

theorem Opens.unique {q : Begun} (h : Opens b p) (h' : Opens b q) : p = q := by
  obtain ⟨bits, owed, low, high⟩ := p
  obtain ⟨bits', owed', low', high'⟩ := q
  unfold Opens at h h'
  dsimp only at h h'
  have hbits : bits = bits' := by omega
  have howed : owed = owed' := by omega
  have hlow : low = low' := UInt8.toNat_inj.mp (by omega)
  have hhigh : high = high' := UInt8.toNat_inj.mp (by omega)
  rw [hbits, howed, hlow, hhigh]

theorem go_of_opens (h : Opens b p) (rest : Bytes) :
    units.go none (b :: rest) = units.go (some p) rest := by
  have hrange : 0xC2 ≤ b.toNat ∧ b.toNat < 0xF5 := by
    unfold Opens at h
    omega
  obtain ⟨q, hopens, hgo⟩ := exists_opens hrange.1 hrange.2
  rw [hgo, h.unique hopens]

/-- Reading comes to the character that has begun. -/
theorem Begins.go (h : Begins front p) (rest : Bytes) :
    units.go none (front ++ rest) = units.go (some p) rest := by
  induction h generalizing rest with
  | first h => exact go_of_opens h rest
  | @next front p b h howed hb ih =>
    rw [List.append_assoc, ih, List.singleton_append, go_next hb, if_neg (by omega)]

theorem Begins.bounds (h : Begins front p) : p.low ≤ p.high := by
  cases h with
  | first h =>
    unfold Opens at h
    show p.low.toNat ≤ p.high.toNat
    omega
  | next =>
    show (0x80 : UInt8) ≤ 0xBF
    decide

/-- What has begun can be ended: the lowest bytes that are admitted will do. -/
theorem Begins.leads {front : Bytes} {p : Begun} (h : Begins front p) : Leads front := by
  have hlow : p.low ≤ p.low ∧ p.low ≤ p.high := ⟨Nat.le_refl _, h.bounds⟩
  by_cases howed : p.owed ≤ 1
  · exact ⟨_, encode_of_begins h howed hlow ▸ List.prefix_append front [p.low]⟩
  · have hnext := Begins.next h (by omega) hlow
    obtain ⟨c, hc⟩ := Begins.leads hnext
    exact ⟨c, (List.prefix_append front [p.low]).trans hc⟩
termination_by p.owed
decreasing_by
  show p.owed - 1 < p.owed
  omega

theorem Begins.ne_nil (h : Begins front p) : front ≠ [] := by
  cases h <;> simp

/-- Where the first stretch is ill-formed, no character is written. -/
theorem not_char_of_go {us : List (Option Char)} (h : units.go none bs = none :: us) (c : Char) :
    ¬String.utf8EncodeChar c <+: bs := by
  rintro ⟨rest, rfl⟩
  rw [go_encode] at h
  cases h

/-- Bytes that are ill-formed whatever follows them start no character. -/
theorem not_leads_of_go (h : ∀ rest, ∃ us, units.go none (front ++ rest) = none :: us) :
    ¬Leads front := by
  rintro ⟨c, rest, hc⟩
  obtain ⟨us, hgo⟩ := h rest
  rw [hc] at hgo
  exact not_char_of_go hgo c List.prefix_rfl

/-- A byte out of bounds ends the stretch and is read anew. -/
theorem go_cut {rest : Bytes} (hb : ¬(p.low ≤ b ∧ b ≤ p.high)) :
    units.go (some p) (b :: rest) = none :: units.go none (b :: rest) := by
  simp only [units.go, if_neg hb]
  cases lead b <;> rfl

/-- A character that has begun and does not end is an ill-formed stretch. -/
theorem Begins.illFormed {rest : Bytes} {us : List (Option Char)} (h : Begins front p)
    (hrest : ∀ b more, rest = b :: more → ¬(p.low ≤ b ∧ b ≤ p.high)) (hlater : Stretches rest us) :
    Stretches (front ++ rest) (none :: us) := by
  have hill : ∃ us, units.go none (front ++ rest) = none :: us := by
    rw [h.go]
    cases rest with
    | nil => exact ⟨[], rfl⟩
    | cons b more => exact ⟨_, go_cut (hrest b more rfl)⟩
  obtain ⟨us, hgo⟩ := hill
  refine .illFormed (not_char_of_go hgo) (.inr ⟨h.ne_nil, h.leads⟩) ?_ hlater
  intro b more hsplit
  refine not_leads_of_go fun later => ?_
  rw [List.append_assoc, h.go]
  exact ⟨_, go_cut (hrest b more hsplit)⟩

/-- Bytes in the middle of a character are read with those before them. -/
theorem stretches_go (bs : Bytes) : Stretches bs (units.go none bs) ∧
    ∀ front p, Begins front p → Stretches (front ++ bs) (units.go (some p) bs) := by
  induction bs with
  | nil => exact ⟨.nil, fun front p h => h.illFormed nofun .nil⟩
  | cons b rest ih =>
    obtain ⟨hnone, hsome⟩ := ih
    have hfresh : Stretches (b :: rest) (units.go none (b :: rest)) := by
      have hsuits := lead_suits b
      cases hlead : lead b with
      | char c =>
        obtain ⟨hlt, rfl⟩ : b.toNat < 0x80 ∧ c = Char.ofNat b.toNat := by rwa [hlead] at hsuits
        have hchar := Stretches.char (Char.ofNat b.toNat) hnone
        rw [encode_one hlt] at hchar
        simp only [units.go, hlead]
        exact hchar
      | begins p =>
        have hopens : Opens b p := by rwa [hlead] at hsuits
        simp only [units.go, hlead]
        exact hsome [b] p (.first hopens)
      | stray =>
        have hgo (later : Bytes) : units.go none (b :: later) = none :: units.go none later := by
          simp only [units.go, hlead]
        have hend (c : UInt8) (more : Bytes) (_ : rest = c :: more) : ¬Leads ([b] ++ [c]) :=
          not_leads_of_go fun later => ⟨_, hgo (c :: later)⟩
        rw [hgo]
        exact .illFormed (not_char_of_go (hgo rest)) (.inl rfl) hend hnone
    refine ⟨hfresh, fun front p h => ?_⟩
    by_cases hb : p.low ≤ b ∧ b ≤ p.high
    · rw [go_next hb]
      split
      · rename_i howed
        have hchar := Stretches.char (Char.ofNat (p.bits * 64 + (b.toNat - 0x80))) hnone
        rw [encode_of_begins h howed hb, List.append_assoc, List.singleton_append] at hchar
        exact hchar
      · rename_i howed
        have hnext := Begins.next h (by omega) hb
        have hlater := hsome (front ++ [b]) _ hnext
        rwa [List.append_assoc] at hlater
    -- the byte that does not fit is the first one of what follows
    · rw [go_cut hb]
      refine h.illFormed (fun c more hsplit => ?_) hfresh
      cases hsplit
      exact hb

theorem stretches_units (bs : Bytes) : Stretches bs (units bs) := (stretches_go bs).1

/-- Bytes without ill-formed stretches are what their characters are written as. -/
theorem Stretches.eq_of_chars {cs : List Char} (h : Stretches bs (cs.map some)) :
    bs = cs.flatMap String.utf8EncodeChar := by
  generalize hus : cs.map some = us at h
  induction h generalizing cs with
  | nil =>
    rw [List.map_eq_nil_iff.mp hus]
    rfl
  | char c hrest ih =>
    obtain ⟨d, ds, rfl, hd, hds⟩ := List.map_eq_cons_iff.mp hus
    rw [List.flatMap_cons, ← ih hds, Option.some.inj hd]
  | illFormed => cases cs <;> cases hus

/-- A text that is shown for some bytes. -/
def Shows (bs : Bytes) (text : String) : Prop :=
  ∃ us, Stretches bs us ∧ text = String.ofList (us.map (·.getD '\uFFFD'))

theorem shows_lossy (bs : Bytes) : Shows bs (lossy bs) := ⟨units bs, stretches_units bs, rfl⟩

example : lossy [0xF0, 0x9F, 0x61, 0xE0, 0x80] = "\uFFFDa\uFFFD\uFFFD" := by decide

theorem units_ofString (s : String) : units (Bytes.ofString s) = s.toList.map some := by
  rw [Bytes.ofString_eq]
  show units.go none _ = _
  induction s.toList with
  | nil => rfl
  | cons c cs ih => rw [List.flatMap_cons, go_encode, ih, List.map_cons]

/-- A text is shown as it is. -/
theorem lossy_ofString (s : String) : lossy (Bytes.ofString s) = s := by
  rw [lossy, units_ofString, List.map_map]
  have hid : (fun unit : Option Char => unit.getD replacement) ∘ some = id := rfl
  rw [hid, List.map_id, String.ofList_toList]

theorem mapM_id_eq_some_iff {units : List (Option Char)} {cs : List Char} :
    units.mapM id = some cs ↔ units = cs.map some := by
  induction units generalizing cs with
  | nil => cases cs <;> simp
  | cons unit rest ih =>
    rw [List.mapM_cons]
    constructor
    · intro h
      obtain ⟨c, hc, hmore⟩ := Option.bind_eq_some_iff.mp h
      obtain ⟨ds, hds, heq⟩ := Option.bind_eq_some_iff.mp hmore
      obtain rfl : c :: ds = cs := Option.some.inj heq
      rw [List.map_cons, ← ih.mp hds, ← hc]
      rfl
    · intro h
      obtain ⟨c, ds, rfl, hc, hds⟩ := List.map_eq_cons_iff.mp h.symm
      rw [← hc, ih.mpr hds.symm]
      rfl

/-- A byte string is read as a text exactly if the text is written so. -/
theorem decode?_eq_some_iff {s : String} : decode? bs = some s ↔ bs = Bytes.ofString s := by
  rw [decode?, Option.map_eq_some_iff]
  constructor
  · rintro ⟨cs, hcs, rfl⟩
    have hstretches := stretches_units bs
    rw [mapM_id_eq_some_iff.mp hcs] at hstretches
    rw [Bytes.ofString_eq, String.toList_ofList]
    exact hstretches.eq_of_chars
  · rintro rfl
    exact ⟨s.toList, mapM_id_eq_some_iff.mpr (units_ofString s), String.ofList_toList⟩

@[simp] theorem decode?_ofString (s : String) : decode? (Bytes.ofString s) = some s :=
  decode?_eq_some_iff.mpr rfl

/-- A byte of the lowest half is a character of its own. -/
theorem encode_of_mem {c : Char} (hmem : b ∈ String.utf8EncodeChar c) (hb : b.toNat < 0x80) :
    String.utf8EncodeChar c = [b] := by
  obtain ⟨a, hbytes, -⟩ | ⟨a₁, a₂, hbytes, -, -, h₁, h₂⟩ |
    ⟨a₁, a₂, a₃, hbytes, -, -, h₁, h₂, h₃⟩ | ⟨a₁, a₂, a₃, a₄, hbytes, -, h₁, h₂, h₃, h₄⟩ :=
      encode_cases c
  · rw [hbytes] at hmem ⊢
    rw [List.mem_singleton.mp hmem]
  -- the bytes of a longer character are all of the upper half
  all_goals
    rw [hbytes] at hmem
    simp only [List.mem_cons, List.not_mem_nil, or_false] at hmem
  · rcases hmem with rfl | rfl <;> omega
  · rcases hmem with rfl | rfl | rfl <;> omega
  · rcases hmem with rfl | rfl | rfl | rfl <;> omega

theorem exists_chars_of_split {cs : List Char} {back : Bytes} (hb : b.toNat < 0x80)
    (h : cs.flatMap String.utf8EncodeChar = front ++ b :: back) :
    ∃ ds es : List Char, front = ds.flatMap String.utf8EncodeChar ∧
      back = es.flatMap String.utf8EncodeChar := by
  induction cs generalizing front with
  | nil => cases front <;> cases h
  | cons c rest ih =>
    rw [List.flatMap_cons] at h
    have hlater {left : Bytes} (hleft : rest.flatMap String.utf8EncodeChar = left ++ b :: back)
        (hfront : front = String.utf8EncodeChar c ++ left) :
        ∃ ds es : List Char, front = ds.flatMap String.utf8EncodeChar ∧
          back = es.flatMap String.utf8EncodeChar := by
      obtain ⟨ds, es, rfl, hback⟩ := ih hleft
      exact ⟨c :: ds, es, by rw [hfront, List.flatMap_cons], hback⟩
    obtain ⟨left, hfront, hrest⟩ | ⟨left, hchar, hsplit⟩ := List.append_eq_append_iff.mp h
    · exact hlater hrest hfront
    cases left with
    | nil =>
      have hrest : rest.flatMap String.utf8EncodeChar = [] ++ b :: back := hsplit.symm
      exact hlater hrest (by rw [hchar, List.append_nil, List.append_nil])
    | cons b' left =>
      obtain ⟨rfl, hback⟩ := List.cons.inj hsplit
      -- the byte stands in the character, so it is all of it
      have hone := encode_of_mem (hchar ▸ List.mem_append_right front List.mem_cons_self) hb
      obtain ⟨rfl, hleft⟩ : front = [] ∧ left = [] := by
        have hlength := congrArg List.length (hchar.symm.trans hone)
        simp only [List.length_append, List.length_cons, List.length_nil] at hlength
        exact ⟨List.length_eq_zero_iff.mp (by omega), List.length_eq_zero_iff.mp (by omega)⟩
      refine ⟨[], rest, rfl, ?_⟩
      rw [hback, hleft]
      rfl

/-- A text that is cut at a byte of the lowest half is cut into texts. -/
theorem exists_texts_of_split {s : String} {back : Bytes} (hb : b.toNat < 0x80)
    (h : Bytes.ofString s = front ++ b :: back) :
    ∃ t u, front = Bytes.ofString t ∧ back = Bytes.ofString u := by
  rw [Bytes.ofString_eq] at h
  obtain ⟨ds, es, rfl, rfl⟩ := exists_chars_of_split hb h
  refine ⟨String.ofList ds, String.ofList es, ?_, ?_⟩
  · rw [Bytes.ofString_eq, String.toList_ofList]
  · rw [Bytes.ofString_eq, String.toList_ofList]

end Utf8

namespace FileSystem

/-- What can be read as text at a path: what a file holds, or nothing at a device. -/
theorem readText_eq_ok_iff {fs : FileSystem} {p : Path} {text : String} :
    fs.readText p = .ok text ↔ (fs.status p = .ok .device ∧ text = "") ∨
      ∃ x, fs.status p = .ok (.file (Bytes.ofString text) x) := by
  have hempty : Utf8.decode? [] = some "" := Utf8.decode?_ofString ""
  constructor
  · intro h
    unfold readText read at h
    split at h
    · rename_i content hread
      split at h
      · rename_i found hdecode
        obtain rfl := Except.ok.inj h
        split at hread <;> cases hread
        · obtain rfl := Utf8.decode?_eq_some_iff.mp hdecode
          exact .inr ⟨_, ‹_›⟩
        · exact .inl ⟨‹_›, Option.some.inj (hdecode.symm.trans hempty)⟩
      · cases h
    · cases h
  · rintro (⟨h, rfl⟩ | ⟨x, h⟩)
    · simp only [readText, read, h, hempty]
    · simp only [readText, read, h, Utf8.decode?_ofString]

end FileSystem

end Groom
