import Groom.Selection
import Groom.Proofs.Path
import Groom.Proofs.Text

/-! Selections as a matter of bytes. The file name of a path is its last stretch that counts, and
the extension of a name is what follows its last dot; so whether a selection accepts a path can be
read off the way in which the path is written. -/
namespace Groom

namespace Bytes

theorem splitLast?_eq_none_iff {sep : UInt8} {bs : Bytes} :
    splitLast? sep bs = none ↔ sep ∉ bs := by
  induction bs with
  | nil => simp [splitLast?]
  | cons b rest ih =>
    cases hrest : splitLast? sep rest with
    | some parts =>
      have hmem : sep ∈ rest := by
        refine Decidable.byContradiction fun h => ?_
        cases hrest.symm.trans (ih.mpr h)
      simp [splitLast?, hrest, hmem]
    | none =>
      have hnotMem : sep ∉ rest := ih.mp hrest
      simp [splitLast?, hrest, hnotMem, eq_comm]

/-- The last separator is the one behind which there is none. -/
theorem splitLast?_eq_some_iff {sep : UInt8} {bs front back : Bytes} :
    splitLast? sep bs = some (front, back) ↔ bs = front ++ sep :: back ∧ sep ∉ back := by
  induction bs generalizing front with
  | nil => simp [splitLast?]
  | cons b rest ih =>
    constructor
    · intro h
      simp only [splitLast?] at h
      split at h
      · rename_i hrest
        obtain ⟨rfl, rfl⟩ : _ ∧ _ := by simpa using h
        obtain ⟨rfl, hback⟩ := ih.mp hrest
        exact ⟨rfl, hback⟩
      · rename_i hrest
        split at h
        · rename_i hb
          obtain ⟨rfl, rfl⟩ : _ ∧ _ := by simpa using h
          exact ⟨by rw [hb]; rfl, splitLast?_eq_none_iff.mp hrest⟩
        · cases h
    · rintro ⟨h, hback⟩
      cases front with
      | nil =>
        obtain ⟨rfl, rfl⟩ := List.cons.inj h
        simp [splitLast?, splitLast?_eq_none_iff.mpr hback]
      | cons c front =>
        obtain ⟨rfl, hrest⟩ := List.cons.inj h
        simp [splitLast?, ih.mpr ⟨hrest, hback⟩]

end Bytes

namespace Path

/-- What does not count at the end of a path: slashes, each of them followed by a single dot or not.
-/
inductive Trailing : Bytes → Prop where
  | nil : Trailing []
  | slash {tail : Bytes} : Trailing tail → Trailing (Bytes.slash :: tail)
  | dot {tail : Bytes} : Trailing tail → Trailing (Bytes.slash :: Bytes.dot :: tail)

/-- The last component of a path, apart from what does not count at its end, is this name. The root
and the empty path have none, and dots alone, which lead to a directory, are no name. -/
def EndsIn (p : Path) (name : Bytes) : Prop :=
  ∃ front tail, p.bytes = front ++ name ++ tail ∧
    (front = [] ∨ front.getLast? = some Bytes.slash) ∧ Trailing tail ∧
    Bytes.slash ∉ name ∧ name ≠ [] ∧ name ≠ [Bytes.dot] ∧ name ≠ [Bytes.dot, Bytes.dot]

theorem trailing_iff {tail : Bytes} : Trailing tail ↔
    ∃ blanks : List Bytes, (∀ s ∈ blanks, blank s = true) ∧
      tail = blanks.flatMap (Bytes.slash :: ·) := by
  constructor
  · intro h
    induction h with
    | nil => exact ⟨[], nofun, rfl⟩
    | slash _ ih =>
      obtain ⟨blanks, hblanks, rfl⟩ := ih
      exact ⟨[] :: blanks, List.forall_mem_cons.mpr ⟨rfl, hblanks⟩, rfl⟩
    | dot _ ih =>
      obtain ⟨blanks, hblanks, rfl⟩ := ih
      exact ⟨[Bytes.dot] :: blanks, List.forall_mem_cons.mpr ⟨rfl, hblanks⟩, rfl⟩
  · rintro ⟨blanks, hblanks, rfl⟩
    induction blanks with
    | nil => exact .nil
    | cons s rest ih =>
      obtain ⟨hs, hrest⟩ := List.forall_mem_cons.mp hblanks
      obtain rfl | rfl : s = [] ∨ s = [Bytes.dot] := by simpa [blank] using hs
      · exact .slash (ih hrest)
      · exact .dot (ih hrest)

/-- Stretches that do not count follow the last one that does, if there is one. -/
theorem blanks_or_last (rest : List Bytes) : (∀ s ∈ rest, blank s = true) ∨
    ∃ kept last blanks, rest = kept ++ last :: blanks ∧ blank last = false ∧
      ∀ s ∈ blanks, blank s = true := by
  induction rest with
  | nil => exact .inl nofun
  | cons x rest ih =>
    obtain hblanks | ⟨kept, last, blanks, rfl, hlast, hblanks⟩ := ih
    · cases hx : blank x with
      | true => exact .inl (List.forall_mem_cons.mpr ⟨hx, hblanks⟩)
      | false => exact .inr ⟨[], x, rest, rfl, hx, hblanks⟩
    · exact .inr ⟨x :: kept, last, blanks, rfl, hlast, hblanks⟩

theorem onward_of_blanks {blanks : List Bytes} (h : ∀ s ∈ blanks, blank s = true) :
    onward blanks = [] := by
  have hnone : blanks.filter (!blank ·) = [] :=
    List.filter_eq_nil_iff.mpr fun s hs => by simp [h s hs]
  rw [onward, hnone, List.map_nil]

/-- The last stretch that counts is the last step. -/
theorem onward_of_last (kept : List Bytes) {last : Bytes} {blanks : List Bytes}
    (hlast : blank last = false) (hblanks : ∀ s ∈ blanks, blank s = true) :
    onward (kept ++ last :: blanks) = onward kept ++ [.ofSegment last] := by
  have hone : onward [last] = [.ofSegment last] := by simp [onward, hlast]
  calc onward (kept ++ last :: blanks)
      = onward kept ++ (onward [last] ++ onward blanks) := by
        rw [← onward_append, List.singleton_append, onward_append]
    _ = onward kept ++ [.ofSegment last] := by
        rw [onward_of_blanks hblanks, List.append_nil, hone]

theorem ofSegment_eq_name_iff {s name : Bytes} : Component.ofSegment s = .name name ↔
    s = name ∧ name ≠ [Bytes.dot] ∧ name ≠ [Bytes.dot, Bytes.dot] := by
  by_cases hdot : s = [Bytes.dot]
  · simp only [Component.ofSegment, if_pos hdot, reduceCtorEq, false_iff]
    rintro ⟨rfl, hne, -⟩
    exact hne hdot
  by_cases hdots : s = [Bytes.dot, Bytes.dot]
  · simp only [Component.ofSegment, if_neg hdot, if_pos hdots, reduceCtorEq, false_iff]
    rintro ⟨rfl, -, hne⟩
    exact hne hdots
  · simp only [Component.ofSegment, if_neg hdot, if_neg hdots, Component.name.injEq]
    exact ⟨fun h => ⟨h, h ▸ hdot, h ▸ hdots⟩, fun h => h.1⟩

theorem fileName?_eq_some_iff_getLast? {p : Path} {name : Bytes} :
    p.fileName? = some name ↔ p.components.getLast? = some (.name name) := by
  unfold fileName?
  split <;> simp_all

/-- A path whose last step is a name ends in that name. -/
theorem endsIn_of_fileName? {p : Path} {name : Bytes} (h : p.fileName? = some name) :
    p.EndsIn name := by
  rw [fileName?_eq_some_iff_getLast?] at h
  obtain ⟨first, rest, hsplit⟩ :=
    List.exists_cons_of_ne_nil (Bytes.splitOn_ne_nil Bytes.slash p.bytes)
  have hp : p.bytes = Bytes.joinWith Bytes.slash (first :: rest) := by
    rw [← hsplit, Bytes.joinWith_splitOn]
  have hpure {s : Bytes} (hs : s ∈ first :: rest) : Bytes.slash ∉ s :=
    Bytes.notMem_of_mem_splitOn (hsplit ▸ hs)
  rw [components_of_stretches hsplit] at h
  obtain hblanks | ⟨kept, last, blanks, rfl, hlast, hblanks⟩ := blanks_or_last rest
  -- only the first stretch counts
  · rw [onward_of_blanks hblanks, List.append_nil] at h
    have hfirst : first ≠ [] := by
      rintro rfl
      simp only [opening, ne_eq, not_true_eq_false, if_false] at h
      split at h <;> cases h
    simp only [opening, hfirst, ne_eq, not_false_eq_true, if_true, List.getLast?_singleton,
      Option.some.injEq, ofSegment_eq_name_iff] at h
    obtain ⟨rfl, hdot, hdots⟩ := h
    refine ⟨[], rest.flatMap (Bytes.slash :: ·), ?_, .inl rfl,
      trailing_iff.mpr ⟨rest, hblanks, rfl⟩, hpure List.mem_cons_self, hfirst, hdot, hdots⟩
    rw [hp, Bytes.joinWith_cons, List.nil_append]
  · rw [onward_of_last kept hlast hblanks, ← List.append_assoc, List.getLast?_concat,
      Option.some.injEq, ofSegment_eq_name_iff] at h
    obtain ⟨rfl, hdot, hdots⟩ := h
    have hempty : last ≠ [] := by
      rintro rfl
      cases hlast
    refine ⟨Bytes.joinWith Bytes.slash (first :: kept) ++ [Bytes.slash],
      blanks.flatMap (Bytes.slash :: ·), ?_, .inr List.getLast?_concat,
      trailing_iff.mpr ⟨blanks, hblanks, rfl⟩, hpure (by simp), hempty, hdot, hdots⟩
    rw [hp, Bytes.joinWith_cons, Bytes.joinWith_cons]
    simp

/-- The stretches of a name and of what does not count behind it. -/
theorem splitOn_of_blanks {name : Bytes} {blanks : List Bytes} (hname : Bytes.slash ∉ name)
    (hblanks : ∀ s ∈ blanks, blank s = true) :
    Bytes.splitOn Bytes.slash (name ++ blanks.flatMap (Bytes.slash :: ·)) = name :: blanks := by
  rw [← Bytes.joinWith_cons]
  refine Bytes.splitOn_joinWith (List.cons_ne_nil name blanks) ?_
  refine List.forall_mem_cons.mpr ⟨hname, fun s hs => ?_⟩
  obtain rfl | rfl : s = [] ∨ s = [Bytes.dot] := by simpa [blank] using hblanks s hs
  · exact List.not_mem_nil
  · decide

theorem EndsIn.fileName? {p : Path} {name : Bytes} (h : p.EndsIn name) :
    p.fileName? = some name := by
  obtain ⟨front, tail, hp, hfront, htail, hname, hempty, hdot, hdots⟩ := h
  obtain ⟨blanks, hblanks, rfl⟩ := trailing_iff.mp htail
  have hstretches := splitOn_of_blanks hname hblanks
  have hlast : Component.ofSegment name = .name name := ofSegment_eq_name_iff.mpr ⟨rfl, hdot, hdots⟩
  have hcounts : blank name = false := by simp [blank, hempty, hdot]
  rw [fileName?_eq_some_iff_getLast?]
  obtain rfl | hslash := hfront
  · rw [List.nil_append] at hp
    rw [components_of_stretches (hp ▸ hstretches), onward_of_blanks hblanks]
    simp [opening, hempty, hlast]
  · obtain ⟨f, rfl⟩ := List.getLast?_eq_some_iff.mp hslash
    obtain ⟨first, more, hsplit⟩ :=
      List.exists_cons_of_ne_nil (Bytes.splitOn_ne_nil Bytes.slash f)
    have hall : Bytes.splitOn Bytes.slash p.bytes = first :: (more ++ name :: blanks) := by
      have hcut : p.bytes = f ++ Bytes.slash :: (name ++ blanks.flatMap (Bytes.slash :: ·)) := by
        simp [hp]
      rw [hcut, Bytes.splitOn_append, hsplit, hstretches]
      rfl
    rw [components_of_stretches hall, onward_of_last more hcounts hblanks, ← List.append_assoc,
      List.getLast?_concat, hlast]

/-- The file name of a path is the name in which it ends. -/
theorem fileName?_eq_some_iff {p : Path} {name : Bytes} : p.fileName? = some name ↔ p.EndsIn name :=
  ⟨endsIn_of_fileName?, EndsIn.fileName?⟩

theorem EndsIn.unique {p : Path} {name name' : Bytes} (h : p.EndsIn name) (h' : p.EndsIn name') :
    name = name' :=
  Option.some.inj ((fileName?_eq_some_iff.mpr h).symm.trans (fileName?_eq_some_iff.mpr h'))

/-- A path that is a text ends in a text. -/
theorem EndsIn.exists_text {s : String} {name : Bytes} (h : EndsIn ⟨Bytes.ofString s⟩ name) :
    ∃ t, name = Bytes.ofString t := by
  obtain ⟨front, tail, hs, hfront, htail, -⟩ := h
  have hslash : Bytes.slash.toNat < 0x80 := by decide
  have hback : ∃ u, name ++ tail = Bytes.ofString u := by
    obtain rfl | hlast := hfront
    · exact ⟨s, hs.symm⟩
    · obtain ⟨f, rfl⟩ := List.getLast?_eq_some_iff.mp hlast
      have hcut : Bytes.ofString s = f ++ Bytes.slash :: (name ++ tail) := by
        rw [show Bytes.ofString s = _ from hs]
        simp only [List.append_assoc, List.cons_append, List.nil_append]
      obtain ⟨t, u, -, hu⟩ := Utf8.exists_texts_of_split hslash hcut
      exact ⟨u, hu⟩
  obtain ⟨u, hu⟩ := hback
  cases htail with
  | nil => exact ⟨u, by rw [← hu, List.append_nil]⟩
  | slash | dot =>
    obtain ⟨t, v, ht, -⟩ := Utf8.exists_texts_of_split hslash hu.symm
    exact ⟨t, ht⟩

/-- What stands before the last dot of a name with an extension is not empty. -/
theorem extension?_eq_some_iff {p : Path} {ext : Bytes} : p.extension? = some ext ↔
    ∃ stem, p.EndsIn (stem ++ Bytes.dot :: ext) ∧ stem ≠ [] ∧ Bytes.dot ∉ ext := by
  have hextension (name : Bytes) : extensionOf? name = some ext ↔
      ∃ stem, name = stem ++ Bytes.dot :: ext ∧ stem ≠ [] ∧ Bytes.dot ∉ ext := by
    constructor
    · intro h
      cases hsplit : Bytes.splitLast? Bytes.dot name with
      | none => simp [extensionOf?, hsplit] at h
      | some parts =>
        obtain ⟨stem, back⟩ := parts
        obtain ⟨hname, hback⟩ := Bytes.splitLast?_eq_some_iff.mp hsplit
        cases stem with
        | nil => simp [extensionOf?, hsplit] at h
        | cons b stem =>
          obtain rfl : back = ext := by simpa [extensionOf?, hsplit] using h
          exact ⟨b :: stem, hname, List.cons_ne_nil b stem, hback⟩
    · rintro ⟨stem, hname, hstem, hdot⟩
      have hsplit := Bytes.splitLast?_eq_some_iff.mpr ⟨hname, hdot⟩
      obtain ⟨b, rest, rfl⟩ := List.exists_cons_of_ne_nil hstem
      simp [extensionOf?, hsplit]
  rw [extension?, Option.bind_eq_some_iff]
  constructor
  · rintro ⟨name, hname, hext⟩
    obtain ⟨stem, rfl, hstem, hdot⟩ := (hextension name).mp hext
    exact ⟨stem, fileName?_eq_some_iff.mp hname, hstem, hdot⟩
  · rintro ⟨stem, hends, hstem, hdot⟩
    exact ⟨_, fileName?_eq_some_iff.mpr hends, (hextension _).mpr ⟨stem, rfl, hstem, hdot⟩⟩

end Path

namespace Selection

/-- Only a dot is written as the byte of a dot, so it makes no difference whether dots are dropped
from a text or from its bytes. -/
theorem ofString_trimDots (s : String) :
    Bytes.ofString (trimDots s) = (Bytes.ofString s).dropWhile (· = Bytes.dot) := by
  have hother (c : Char) (hc : c ≠ '.') :
      ∃ a more, String.utf8EncodeChar c = a :: more ∧ a ≠ Bytes.dot := by
    have hchar : c.toNat ≠ 46 := fun h => hc (Char.toNat_inj.mp h)
    have hdot : Bytes.dot.toNat = 46 := rfl
    have hne {a : UInt8} (h : a.toNat ≠ 46) : a ≠ Bytes.dot := fun ha => h (ha ▸ hdot)
    obtain ⟨a, hbytes, -, ha⟩ | ⟨a, b, hbytes, -, -, ha, -⟩ | ⟨a, b, c, hbytes, -, -, ha, -⟩ |
      ⟨a, b, c, d, hbytes, -, ha, -⟩ := Utf8.encode_cases c
    all_goals exact ⟨a, _, hbytes, hne (by omega)⟩
  rw [Bytes.ofString_eq, Bytes.ofString_eq, trimDots, String.toList_ofList]
  induction s.toList with
  | nil => rfl
  | cons c cs ih =>
    by_cases hc : c = '.'
    · have hencode : String.utf8EncodeChar c = [Bytes.dot] := by
        rw [hc]
        decide
      rw [List.flatMap_cons, hencode, List.dropWhile_cons_of_pos (by simpa using hc), ih]
      rfl
    · obtain ⟨a, more, hencode, ha⟩ := hother c hc
      rw [List.dropWhile_cons_of_neg (by simpa using hc), List.flatMap_cons, hencode,
        List.cons_append, List.dropWhile_cons_of_neg (by simpa using ha)]

theorem trimDots_replicate (n : Nat) (s : String) :
    trimDots (String.ofList (List.replicate n '.') ++ s) = trimDots s := by
  rw [trimDots, trimDots, String.toList_append, String.toList_ofList]
  induction n with
  | zero => rfl
  | succ n ih => rw [List.replicate_succ, List.cons_append, List.dropWhile_cons_of_pos rfl, ih]

theorem accepts_bySuffix_iff {given : List String} {p : Path} :
    (bySuffix given).accepts p = true ↔ ∃ stem ext, p.EndsIn (stem ++ Bytes.dot :: ext) ∧
      stem ≠ [] ∧ Bytes.dot ∉ ext ∧
      ∃ s ∈ given, ext = (Bytes.ofString s).dropWhile (· = Bytes.dot) := by
  have haccepts : (bySuffix given).accepts p = true ↔
      ∃ ext, p.extension? = some ext ∧ ∃ s ∈ given, Bytes.ofString (trimDots s) = ext := by
    cases h : p.extension? with
    | none => simp [bySuffix, accepts, h]
    | some ext => simp only [bySuffix, accepts, h, List.any_map, List.any_eq_true,
        Function.comp_apply, decide_eq_true_eq, Option.some.injEq, exists_eq_left']
  rw [haccepts]
  constructor
  · rintro ⟨ext, hext, s, hs, rfl⟩
    obtain ⟨stem, hends, hstem, hdot⟩ := Path.extension?_eq_some_iff.mp hext
    exact ⟨stem, _, hends, hstem, hdot, s, hs, ofString_trimDots s⟩
  · rintro ⟨stem, ext, hends, hstem, hdot, s, hs, hext⟩
    refine ⟨ext, Path.extension?_eq_some_iff.mpr ⟨stem, hends, hstem, hdot⟩, s, hs, ?_⟩
    rw [hext, ofString_trimDots]

theorem accepts_names_iff {given : List String} {p : Path} :
    (names given).accepts p = true ↔ ∃ s ∈ given, p.EndsIn (Bytes.ofString s) := by
  simp only [← Path.fileName?_eq_some_iff]
  cases h : p.fileName? with
  | none => simp [accepts, h]
  | some name => simp [accepts, h, @eq_comm _ name]

/-- Selections are exact on the last component of a path. A selection by suffixes accepts a path
exactly if the path ends in a name with a last dot that is not its first byte, and what follows that
dot is, byte for byte, one of the suffixes without the dots in front; a selection by names accepts
it exactly if it ends in one of the names. So both go by the last component alone, dots in front of
a suffix make no difference, a suffix with a dot inside accepts nothing, and a name whose only dot
is its first byte is not accepted by suffix. -/
theorem exact_on_last_component (given : List String) (p : Path) :
    ((bySuffix given).accepts p = true ↔ ∃ stem ext, p.EndsIn (stem ++ Bytes.dot :: ext) ∧
      stem ≠ [] ∧ Bytes.dot ∉ ext ∧
      ∃ s ∈ given, ext = (Bytes.ofString s).dropWhile (· = Bytes.dot)) ∧
    ((names given).accepts p = true ↔ ∃ s ∈ given, p.EndsIn (Bytes.ofString s)) ∧
    (∀ q : Path, (∀ name, p.EndsIn name ↔ q.EndsIn name) →
      (bySuffix given).accepts p = (bySuffix given).accepts q ∧
      (names given).accepts p = (names given).accepts q) ∧
    (∀ dots : String → Nat,
      bySuffix (given.map fun s => String.ofList (List.replicate (dots s) '.') ++ s) =
        bySuffix given) ∧
    (∀ s, Bytes.dot ∈ (Bytes.ofString s).dropWhile (· = Bytes.dot) →
      (bySuffix [s]).accepts p = false) ∧
    ∀ name, Bytes.dot ∉ name → p.EndsIn (Bytes.dot :: name) →
      (bySuffix given).accepts p = false := by
  refine ⟨accepts_bySuffix_iff, accepts_names_iff, ?_, ?_, ?_, ?_⟩
  · intro q hsame
    constructor <;> rw [Bool.eq_iff_iff]
    · simp only [accepts_bySuffix_iff, hsame]
    · simp only [accepts_names_iff, hsame]
  · intro dots
    simp only [bySuffix, List.map_map, Function.comp_def, trimDots_replicate]
  · intro s hinner
    rw [Bool.eq_false_iff]
    intro haccepts
    obtain ⟨_, ext, -, -, hdot, s', hs', rfl⟩ := accepts_bySuffix_iff.mp haccepts
    obtain rfl := List.mem_singleton.mp hs'
    exact hdot hinner
  · intro name hname hends
    rw [Bool.eq_false_iff]
    intro haccepts
    obtain ⟨stem, ext, hends', hstem, -⟩ := accepts_bySuffix_iff.mp haccepts
    obtain ⟨b, rest, rfl⟩ := List.exists_cons_of_ne_nil hstem
    -- the name has a second dot, the one in front of its extension
    obtain ⟨-, hrest⟩ := List.cons.inj (hends.unique hends')
    exact hname (hrest ▸ by simp)

example : (bySuffix ["..py"]).accepts (.ofString "a/.b.py/./") = true ∧
    (bySuffix ["py", "b.py"]).accepts (.ofString "a.py/..") = false := by decide

end Selection

end Groom
