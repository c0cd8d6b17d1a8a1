import Groom.Proofs.Listing
import Groom.Path

/-! Paths below a path. They are written by joining names to it, and they are ordered by their
names, one after another, in the order of the names' bytes. -/
namespace Groom

namespace Bytes

theorem splitOn_ne_nil (sep : UInt8) (bs : Bytes) : splitOn sep bs ≠ [] := by
  cases bs with
  | nil => simp [splitOn]
  | cons b rest =>
    simp only [splitOn]
    split
    · simp
    · split <;> simp

theorem splitOn_append (sep : UInt8) (a b : Bytes) :
    splitOn sep (a ++ sep :: b) = splitOn sep a ++ splitOn sep b := by
  induction a with
  | nil => simp [splitOn]
  | cons c rest ih =>
    by_cases hc : c = sep
    · simp [splitOn, hc, ih]
    · obtain ⟨piece, pieces, hp⟩ := List.exists_cons_of_ne_nil (splitOn_ne_nil sep rest)
      simp [splitOn, hc, ih, hp]

theorem splitOn_of_notMem {sep : UInt8} {bs : Bytes} (h : sep ∉ bs) : splitOn sep bs = [bs] := by
  induction bs with
  | nil => rfl
  | cons b rest ih =>
    have hb : b ≠ sep := fun he => h (he ▸ List.mem_cons_self)
    simp [splitOn, hb, ih fun hm => h (List.mem_cons_of_mem b hm)]

theorem notMem_of_mem_splitOn {sep : UInt8} {bs piece : Bytes} (h : piece ∈ splitOn sep bs) :
    sep ∉ piece := by
  induction bs generalizing piece with
  | nil =>
    obtain rfl := List.mem_singleton.mp h
    exact List.not_mem_nil
  | cons b rest ih =>
    obtain ⟨first, more, hrest⟩ := List.exists_cons_of_ne_nil (splitOn_ne_nil sep rest)
    by_cases hb : b = sep
    · simp only [splitOn, hb, if_true] at h
      obtain rfl | h := List.mem_cons.mp h
      · exact List.not_mem_nil
      · exact ih h
    · simp only [splitOn, hb, if_false, hrest] at h ih
      obtain rfl | h := List.mem_cons.mp h
      · have hfirst : sep ∉ first := ih List.mem_cons_self
        simp [hfirst, Ne.symm hb]
      · exact ih (List.mem_cons_of_mem _ h)

theorem splitOn_joinWith {sep : UInt8} {pieces : List Bytes} (hne : pieces ≠ [])
    (h : ∀ piece ∈ pieces, sep ∉ piece) : splitOn sep (joinWith sep pieces) = pieces := by
  induction pieces with
  | nil => exact absurd rfl hne
  | cons piece rest ih =>
    obtain ⟨hpiece, hrest⟩ := List.forall_mem_cons.mp h
    cases rest with
    | nil => exact splitOn_of_notMem hpiece
    | cons next rest =>
      have hjoin : joinWith sep (piece :: next :: rest) =
          piece ++ sep :: joinWith sep (next :: rest) := rfl
      rw [hjoin, splitOn_append, splitOn_of_notMem hpiece, ih (List.cons_ne_nil next rest) hrest]
      rfl

theorem joinWith_cons (sep : UInt8) (piece : Bytes) (pieces : List Bytes) :
    joinWith sep (piece :: pieces) = piece ++ pieces.flatMap (sep :: ·) := by
  induction pieces generalizing piece with
  | nil => simp [joinWith]
  | cons next rest ih =>
    calc joinWith sep (piece :: next :: rest)
        = piece ++ sep :: joinWith sep (next :: rest) := rfl
      _ = piece ++ (next :: rest).flatMap (sep :: ·) := by rw [ih]; simp

theorem joinWith_splitOn (sep : UInt8) (bs : Bytes) : joinWith sep (splitOn sep bs) = bs := by
  induction bs with
  | nil => rfl
  | cons b rest ih =>
    obtain ⟨piece, pieces, hsplit⟩ := List.exists_cons_of_ne_nil (splitOn_ne_nil sep rest)
    rw [hsplit, joinWith_cons] at ih
    by_cases hb : b = sep
    · simp only [splitOn, hb, if_true, hsplit, joinWith_cons]
      simp [ih]
    · simp only [splitOn, hb, if_false, hsplit, joinWith_cons]
      simp [ih]

end Bytes

namespace Name

theorem slash_notMem (n : Name) : Bytes.slash ∉ n.bytes := by
  have h := n.proper
  simp only [isEntryName, decide_eq_true_eq] at h
  exact h.2.1

theorem bytes_ne_dot (n : Name) : n.bytes ≠ [Bytes.dot] := by
  have h := n.proper
  simp only [isEntryName, decide_eq_true_eq] at h
  exact h.2.2.1

theorem bytes_ne_dots (n : Name) : n.bytes ≠ [Bytes.dot, Bytes.dot] := by
  have h := n.proper
  simp only [isEntryName, decide_eq_true_eq] at h
  exact h.2.2.2.1

theorem zero_notMem (n : Name) : (0 : UInt8) ∉ n.bytes := by
  have h := n.proper
  simp only [isEntryName, decide_eq_true_eq] at h
  exact h.2.2.2.2.1

theorem length_le (n : Name) : n.bytes.length ≤ Resolution.maxName := by
  have h := n.proper
  simp only [isEntryName, decide_eq_true_eq] at h
  exact h.2.2.2.2.2

@[simp] theorem ofBytes?_bytes (n : Name) : ofBytes? n.bytes = some n := by
  simp [ofBytes?, n.proper]

end Name

namespace Path

/-- The path of an entry of the directory that a path leads to. -/
def child (p : Path) (n : Name) : Path := p.join ⟨n.bytes⟩

theorem child_eq (p : Path) (n : Name) :
    p.child n = if p.bytes = [] ∨ p.bytes.getLast? = some Bytes.slash then ⟨p.bytes ++ n.bytes⟩
      else ⟨p.bytes ++ Bytes.slash :: n.bytes⟩ := by
  have hrel : isAbsolute ⟨n.bytes⟩ = false := by
    simp only [isAbsolute, decide_eq_false_iff_not]
    intro h
    exact n.slash_notMem (List.mem_of_mem_head? h)
  simp [child, join, hrel]

theorem child_bytes_ne_nil (p : Path) (n : Name) : (p.child n).bytes ≠ [] := by
  rw [child_eq]
  split <;> simp [n.bytes_ne_nil]

theorem length_child (p : Path) (n : Name) :
    p.bytes.length + n.bytes.length ≤ (p.child n).bytes.length := by
  rw [child_eq]
  split <;> simp

theorem mem_child {p : Path} {n : Name} {b : UInt8} (h : b ∈ p.bytes) : b ∈ (p.child n).bytes := by
  rw [child_eq]
  split <;> simp [h]

theorem isAbsolute_child (p : Path) (n : Name) : (p.child n).isAbsolute = p.isAbsolute := by
  rw [child_eq]
  cases hp : p.bytes with
  | nil =>
    have hfirst : n.bytes.head? ≠ some Bytes.slash := fun h =>
      n.slash_notMem (List.mem_of_mem_head? h)
    simp [isAbsolute, hp, hfirst]
  | cons b rest => split <;> simp [isAbsolute, hp]

theorem segments_child {p : Path} (hp : p.bytes ≠ []) (n : Name) :
    (p.child n).segments = p.segments ++ [n.bytes] := by
  have hn : Bytes.splitOn Bytes.slash n.bytes = [n.bytes] := Bytes.splitOn_of_notMem n.slash_notMem
  rw [child_eq]
  split
  -- the slash at the end of the path, or the one that is put in, is where the segments are cut
  · rename_i h
    obtain ⟨q, hq⟩ := List.getLast?_eq_some_iff.mp (h.resolve_left hp)
    have happ : q ++ [Bytes.slash] ++ n.bytes = q ++ Bytes.slash :: n.bytes := by simp
    simp only [segments, hq, happ, Bytes.splitOn_append, hn]
    simp [Bytes.splitOn, n.bytes_ne_nil]
  · simp [segments, Bytes.splitOn_append, hn, n.bytes_ne_nil]

theorem getLast?_child (p : Path) (n : Name) :
    (p.child n).bytes.getLast? ≠ some Bytes.slash := by
  obtain ⟨front, b, hb⟩ := List.eq_nil_or_concat n.bytes |>.resolve_left n.bytes_ne_nil
  have hmem : b ∈ n.bytes := by simp [hb]
  have hne : b ≠ Bytes.slash := fun h => n.slash_notMem (h ▸ hmem)
  rw [child_eq, hb, List.concat_eq_append]
  split
  · rw [← List.append_assoc, List.getLast?_concat]
    simpa using hne
  · rw [← List.cons_append, ← List.append_assoc, List.getLast?_concat]
    simpa using hne

/-- A stretch that is no step of a path, unless the path starts with it. -/
def blank (stretch : Bytes) : Bool := stretch = [] ∨ stretch = [Bytes.dot]

/-- The step with which a path starts: for its first stretch and those after it. -/
def opening (first : Bytes) (rest : List Bytes) : List Component :=
  if first ≠ [] then [.ofSegment first] else if rest = [] then [] else [.root]

theorem isAbsolute_iff {p : Path} {first : Bytes} {rest : List Bytes}
    (h : Bytes.splitOn Bytes.slash p.bytes = first :: rest) :
    p.isAbsolute = true ↔ first = [] ∧ rest ≠ [] := by
  cases hp : p.bytes with
  | nil =>
    rw [hp] at h
    obtain ⟨rfl, rfl⟩ := List.cons.inj h
    simp [isAbsolute, hp]
  | cons b bs =>
    rw [hp] at h
    obtain ⟨piece, more, hmore⟩ :=
      List.exists_cons_of_ne_nil (Bytes.splitOn_ne_nil Bytes.slash bs)
    by_cases hb : b = Bytes.slash
    · simp only [Bytes.splitOn, hb, if_true] at h
      obtain ⟨rfl, rfl⟩ := List.cons.inj h
      simp [isAbsolute, hp, hb, hmore]
    · simp only [Bytes.splitOn, hb, if_false, hmore] at h
      obtain ⟨rfl, rfl⟩ := List.cons.inj h
      simp [isAbsolute, hp, hb]

/-- The steps of the stretches after the first. -/
def onward (rest : List Bytes) : List Component := (rest.filter (!blank ·)).map .ofSegment

theorem onward_append (xs ys : List Bytes) : onward (xs ++ ys) = onward xs ++ onward ys := by
  simp [onward]

theorem onward_eq (rest : List Bytes) :
    ((rest.filter (· ≠ [])).map Component.ofSegment).filter (· ≠ .here) = onward rest := by
  rw [onward, List.filter_map, List.filter_filter]
  congr 1
  refine List.filter_congr fun stretch _ => ?_
  by_cases hdot : stretch = [Bytes.dot]
  · simp [blank, Component.ofSegment, hdot]
  · by_cases hdots : stretch = [Bytes.dot, Bytes.dot] <;>
      simp [blank, Component.ofSegment, hdot, hdots]

theorem components_of_stretches {p : Path} {first : Bytes} {rest : List Bytes}
    (h : Bytes.splitOn Bytes.slash p.bytes = first :: rest) :
    p.components = opening first rest ++ onward rest := by
  have habs := isAbsolute_iff h
  rw [← onward_eq]
  by_cases hfirst : first = []
  · cases rest with
    | nil =>
      have hrelative : p.isAbsolute = false := by simpa using habs
      simp [components, hrelative, segments, h, hfirst, opening]
    | cons next more =>
      have habsolute : p.isAbsolute = true := habs.mpr ⟨hfirst, List.cons_ne_nil _ _⟩
      have hsegments : p.segments = (next :: more).filter (· ≠ []) := by simp [segments, h, hfirst]
      simp only [components, habsolute, if_true, hsegments, opening, hfirst]
      rfl
  · have hrelative : p.isAbsolute = false := by
      rw [Bool.eq_false_iff]
      exact fun h => hfirst (habs.mp h).1
    have hsegments : p.segments = first :: rest.filter (· ≠ []) := by simp [segments, h, hfirst]
    simp only [components, hrelative, hsegments, opening, List.map_cons]
    cases Component.ofSegment first <;> simp [hfirst]

theorem opening_append {first : Bytes} {rest : List Bytes} (h : first ≠ [] ∨ rest ≠ [])
    (more : List Bytes) : opening first (rest ++ more) = opening first rest := by
  unfold opening
  by_cases hfirst : first = []
  · simp [hfirst, h.resolve_left (not_not_intro hfirst)]
  · rw [if_pos hfirst, if_pos hfirst]

/-- One stretch after a path is one more step, unless it is empty or a single dot. -/
theorem components_join {p : Path} (hp : p.bytes ≠ []) {s : Bytes} (hs : Bytes.slash ∉ s) :
    (p.join ⟨s⟩).components = p.components ++ onward [s] := by
  have hrelative : isAbsolute ⟨s⟩ = false := by
    simp only [isAbsolute, decide_eq_false_iff_not]
    exact fun h => hs (List.mem_of_mem_head? h)
  have hone : Bytes.splitOn Bytes.slash s = [s] := Bytes.splitOn_of_notMem hs
  by_cases hlast : p.bytes.getLast? = some Bytes.slash
  -- the last stretch of the path is empty, and the new one takes its place
  · obtain ⟨front, hfront⟩ := List.getLast?_eq_some_iff.mp hlast
    obtain ⟨first, rest, hsplit⟩ :=
      List.exists_cons_of_ne_nil (Bytes.splitOn_ne_nil Bytes.slash front)
    have hbefore : Bytes.splitOn Bytes.slash p.bytes = first :: (rest ++ [[]]) := by
      rw [hfront, Bytes.splitOn_append, hsplit]
      rfl
    have hafter : Bytes.splitOn Bytes.slash (p.join ⟨s⟩).bytes = first :: (rest ++ [s]) := by
      simp [join, hrelative, hfront, Bytes.splitOn_append, hsplit, hone]
    have hopening : opening first (rest ++ [s]) = opening first (rest ++ [[]]) := by
      simp [opening]
    rw [components_of_stretches hbefore, components_of_stretches hafter, hopening, onward_append,
      onward_append, List.append_assoc, List.append_assoc]
    rfl
  · obtain ⟨first, rest, hsplit⟩ :=
      List.exists_cons_of_ne_nil (Bytes.splitOn_ne_nil Bytes.slash p.bytes)
    have hafter : Bytes.splitOn Bytes.slash (p.join ⟨s⟩).bytes = first :: (rest ++ [s]) := by
      simp [join, hrelative, hlast, hp, Bytes.splitOn_append, hsplit, hone]
    have hsome : first ≠ [] ∨ rest ≠ [] := by
      refine Decidable.not_and_iff_not_or_not.mp ?_
      rintro ⟨rfl, rfl⟩
      have hjoin := Bytes.joinWith_splitOn Bytes.slash p.bytes
      rw [hsplit] at hjoin
      exact hp hjoin.symm
    rw [components_of_stretches hsplit, components_of_stretches hafter, opening_append hsome,
      onward_append, List.append_assoc]

theorem components_child (p : Path) (n : Name) :
    (p.child n).components = p.components ++ [.name n.bytes] := by
  have hname : Component.ofSegment n.bytes = .name n.bytes := by
    simp [Component.ofSegment, n.bytes_ne_dot, n.bytes_ne_dots]
  by_cases hp : p.bytes = []
  · have hsplit : Bytes.splitOn Bytes.slash (p.child n).bytes = [n.bytes] := by
      rw [child_eq, if_pos (.inl hp), hp, List.nil_append]
      exact Bytes.splitOn_of_notMem n.slash_notMem
    have hnone : p.components = [] := by simp [components, segments, isAbsolute, hp, Bytes.splitOn]
    rw [hnone, components_of_stretches hsplit]
    simp [opening, onward, n.bytes_ne_nil, hname]
  · rw [child, components_join hp n.slash_notMem]
    simp [onward, blank, n.bytes_ne_nil, n.bytes_ne_dot, hname]

/-- The path of a place below a path. -/
def below (root : Path) (place : Location) : Path := place.foldl child root

@[simp] theorem below_nil (root : Path) : root.below [] = root := rfl

theorem below_concat (root : Path) (place : Location) (n : Name) :
    root.below (place ++ [n]) = (root.below place).child n := by
  simp [below]

theorem below_bytes_ne_nil {root : Path} (h : root.bytes ≠ []) (place : Location) :
    (root.below place).bytes ≠ [] := by
  rcases List.eq_nil_or_concat place with rfl | ⟨front, n, rfl⟩
  · exact h
  · rw [List.concat_eq_append, below_concat]
    exact child_bytes_ne_nil _ _

/-- Every name makes a path longer. -/
theorem length_below (root : Path) (place : Location) :
    root.bytes.length + place.length ≤ (root.below place).bytes.length := by
  induction place generalizing root with
  | nil => exact Nat.le_refl _
  | cons n rest ih =>
    have hrest : (root.child n).bytes.length + rest.length ≤
        (root.below (n :: rest)).bytes.length := ih (root.child n)
    have hlength := length_child root n
    have hname : 0 < n.bytes.length := List.length_pos_iff.mpr n.bytes_ne_nil
    rw [List.length_cons]
    omega

theorem components_below (root : Path) (place : Location) :
    (root.below place).components = root.components ++ place.map (Component.name ·.bytes) := by
  induction place generalizing root with
  | nil => simp
  | cons n rest ih =>
    calc (root.below (n :: rest)).components
        = (root.child n).components ++ rest.map (Component.name ·.bytes) := ih (root.child n)
      _ = root.components ++ (n :: rest).map (Component.name ·.bytes) := by
        simp [components_child]

theorem below_injective (root : Path) : Function.Injective root.below := by
  intro p q h
  have hnames : p.map (Component.name ·.bytes) = q.map (Component.name ·.bytes) :=
    List.append_cancel_left (by rw [← components_below, ← components_below, h])
  refine (List.map_inj_right ?_).mp hnames
  intro m n hmn
  exact Name.eq_of_bytes (Component.name.inj hmn)

theorem trimStretches_concat (xs : List Bytes) (last : Bytes) :
    trimStretches (xs ++ [last]) = xs.dropWhile blank ++ [last] := by
  induction xs with
  | nil => rfl
  | cons x xs ih =>
    obtain ⟨next, rest, hnext⟩ := List.exists_cons_of_ne_nil (l := xs ++ [last]) (by simp)
    rw [List.cons_append, hnext, trimStretches, ← hnext, ih, List.dropWhile_cons]
    by_cases hx : x = [] ∨ x = [Bytes.dot] <;> simp [blank, hx]

theorem onward_dropWhile (xs : List Bytes) :
    onward (xs.dropWhile blank).reverse = onward xs.reverse := by
  have hblank : (xs.takeWhile blank).reverse.filter (!blank ·) = [] := by
    rw [List.filter_eq_nil_iff]
    intro stretch h
    have hall := List.all_eq_true.mp List.all_takeWhile stretch (List.mem_reverse.mp h)
    simp [hall]
  calc onward (xs.dropWhile blank).reverse
      = onward ((xs.dropWhile blank).reverse ++ (xs.takeWhile blank).reverse) := by
        simp [onward, hblank]
    _ = onward xs.reverse := by rw [← List.reverse_append, List.takeWhile_append_dropWhile]

/-- The last step of a path is its last stretch that counts; those before it are the steps of the
stretches before that one. -/
theorem front_of_last {front : List Component} {c : Component} {first last : Bytes}
    {rest more : List Bytes} (hrest : rest.reverse.dropWhile blank = last :: more)
    (h : front ++ [c] = opening first rest ++ onward rest) :
    front = opening first rest ++ onward (more.dropWhile blank).reverse := by
  have hlast : blank last = false := by
    have hhead := List.head?_dropWhile_not blank rest.reverse
    simpa [hrest] using hhead
  have hone : onward [last] = [.ofSegment last] := by simp [onward, hlast]
  have honward : onward rest = onward (more.dropWhile blank).reverse ++ onward [last] := by
    calc onward rest
        = onward (rest.reverse.dropWhile blank).reverse := by
          rw [onward_dropWhile, List.reverse_reverse]
      _ = onward more.reverse ++ onward [last] := by
          rw [hrest, List.reverse_cons, onward_append]
      _ = onward (more.dropWhile blank).reverse ++ onward [last] := by rw [onward_dropWhile]
  rw [honward, hone, ← List.append_assoc] at h
  exact (List.append_inj' h rfl).1

/-- Stretches are written with slashes between them, or else they are the root alone. -/
theorem components_rejoined {first : Bytes} {kept rest : List Bytes} (hrest : rest ≠ [])
    (hpure : ∀ stretch ∈ first :: kept, Bytes.slash ∉ stretch) :
    ∃ q : Path, (match (first :: kept).reverse with
      | [[]] => some ⟨[Bytes.slash]⟩
      | rest => some ⟨Bytes.joinWith Bytes.slash rest.reverse⟩) = some q ∧
      q.components = opening first rest ++ onward kept := by
  by_cases hroot : first = [] ∧ kept = []
  · have hslash : components ⟨[Bytes.slash]⟩ = [.root] := by decide
    refine ⟨⟨[Bytes.slash]⟩, by simp [hroot], ?_⟩
    simp [hslash, opening, onward, hroot, hrest]
  · refine ⟨⟨Bytes.joinWith Bytes.slash (first :: kept)⟩, ?_, ?_⟩
    · split
      · rename_i heq
        have hnone : first :: kept = [[]] := by simpa using congrArg List.reverse heq
        exact absurd (List.cons.inj hnone) hroot
      · rw [List.reverse_reverse]
    · have hopening : opening first kept = opening first rest := by
        by_cases hfirst : first = [] <;> simp_all [opening]
      have hjoin := Bytes.splitOn_joinWith (List.cons_ne_nil first kept) hpure
      rw [components_of_stretches hjoin, hopening]

/-- A path that ends in a name has a parent, and the steps of that are those before the name. -/
theorem parent_of_components {p : Path} {front : List Component} {n : Bytes}
    (h : p.components = front ++ [.name n]) :
    ∃ q, p.parent? = some q ∧ q.components = front := by
  obtain ⟨first, rest, hsplit⟩ :=
    List.exists_cons_of_ne_nil (Bytes.splitOn_ne_nil Bytes.slash p.bytes)
  have hsteps : front ++ [.name n] = opening first rest ++ onward rest :=
    h.symm.trans (components_of_stretches hsplit)
  have hlast : p.components.getLast? = some (.name n) := by rw [h, List.getLast?_concat]
  have htrim : trimStretches (Bytes.splitOn Bytes.slash p.bytes).reverse =
      rest.reverse.dropWhile blank ++ [first] := by
    rw [hsplit, List.reverse_cons, trimStretches_concat]
  simp only [parent?, hlast, htrim]
  cases hrest : rest.reverse.dropWhile blank with
  | nil =>
    -- the name is the first stretch, and nothing stands before it
    refine ⟨⟨[]⟩, rfl, ?_⟩
    have honward : onward rest = [] := by
      rw [← List.reverse_reverse rest, ← onward_dropWhile, hrest]
      rfl
    have hlength : front.length + 1 ≤ 1 := by
      calc front.length + 1
          = (opening first rest).length := by
            simpa [honward] using congrArg List.length hsteps
        _ ≤ 1 := by
          unfold opening
          split
          · exact Nat.le_refl 1
          · split <;> simp
    exact (List.length_eq_zero_iff.mp (by omega)).symm
  | cons last more =>
    let kept := (more.dropWhile blank).reverse
    have hne : rest ≠ [] := by
      rintro rfl
      cases hrest
    have hkept : kept ⊆ rest := by
      intro stretch hstretch
      have hmem : stretch ∈ rest.reverse.dropWhile blank := by
        rw [hrest]
        exact List.mem_cons_of_mem _ (List.dropWhile_subset _ (List.mem_reverse.mp hstretch))
      exact List.mem_reverse.mp (List.dropWhile_subset _ hmem)
    have hpure : ∀ stretch ∈ first :: kept, Bytes.slash ∉ stretch := by
      intro stretch hstretch
      have hmem : stretch ∈ Bytes.splitOn Bytes.slash p.bytes := by
        rw [hsplit]
        exact List.cons_subset_cons first hkept hstretch
      exact Bytes.notMem_of_mem_splitOn hmem
    have hmore : trimStretches (more ++ [first]) = (first :: kept).reverse := by
      simp [trimStretches_concat, kept]
    obtain ⟨next, others, hnext⟩ := List.exists_cons_of_ne_nil (l := more ++ [first]) (by simp)
    rw [List.cons_append, hnext]
    dsimp only
    rw [← hnext, hmore, front_of_last hrest hsteps]
    exact components_rejoined hne hpure

end Path

namespace Location

/-- The order of places: by their names, one after another, and a place comes before those below it.
-/
def Before (p q : Location) : Prop := List.Lex Name.Before p q

theorem Before.irrefl (p : Location) : ¬p.Before p := List.lex_irrefl Name.Before.irrefl p

theorem Before.trans {p q r : Location} (h : p.Before q) (h' : q.Before r) : p.Before r :=
  List.lex_trans Name.Before.trans h h'

theorem Before.append_left (p : Location) {q r : Location} (h : q.Before r) :
    Before (p ++ q) (p ++ r) := by
  induction p with
  | nil => exact h
  | cons n rest ih => exact .cons ih

theorem before_concat (p : Location) (n : Name) : p.Before (p ++ [n]) := by
  simpa using Before.append_left p (q := []) (r := [n]) .nil

/-- All places at and below one name come before a later name. -/
theorem before_of_prefix {p q : Location} {m n : Name} (hq : p ++ [m] <+: q) (h : m.Before n) :
    q.Before (p ++ [n]) := by
  obtain ⟨rest, rfl⟩ := hq
  rw [List.append_assoc]
  exact Before.append_left p (.rel h)

end Location

end Groom
