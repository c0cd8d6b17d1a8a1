import Groom.FileSystem
import Groom.Proofs.Path

/-! Where paths lead. A way along segments goes on where the way along the first of them ends, so a
name below a path is looked up in the directory to which that path leads. -/
namespace Groom

namespace Node

theorem at?_append (node : Node) (l l' : Location) :
    node.at? (l ++ l') = (node.at? l).bind (·.at? l') := by
  induction l generalizing node with
  | nil => simp [at?]
  | cons n rest ih =>
    cases node with
    | directory es =>
      simp only [List.cons_append, at?]
      cases Entries.find? es n with
      | none => rfl
      | some child => exact ih child
    | file | link | device => rfl

end Node

theorem Tree.node?_concat {t : Tree} {loc : Location} {es : Entries}
    (h : t.node? loc = some (.directory es)) (n : Name) :
    t.node? (loc ++ [n]) = Entries.find? es n := by
  unfold Tree.node? at *
  rw [Node.at?_append, h]
  cases hf : Entries.find? es n <;> simp [Node.at?, hf]

namespace Resolution

variable {t : Tree}

/-- Where segments lead when all links are followed, and how many links may be followed after that.
-/
def approach (t : Tree) : (links : Nat) → Location → List Bytes → Except IoError (Nat × Location)
  | links, here, todo =>
    match advance t .follow here todo with
    | .error e => .error e
    | .ok (.arrived (.entry loc _)) => .ok (links, loc)
    | .ok (.arrived _) => .error .notFound
    | .ok (.link dir path rest) =>
      match links with
      | 0 => .error .tooManyLinks
      | links + 1 =>
        if path = [] then .error .notFound
        else approach t links (if (Path.mk path).isAbsolute then [] else dir) (steps ⟨path⟩ ++ rest)

/-- The way along more segments goes on where the way along the first ones ends. -/
theorem advance_append {purpose : Purpose} (hp : purpose ≠ .create) {ys : List Bytes}
    (hys : ys ≠ []) (here : Location) (xs : List Bytes) :
    advance t purpose here (xs ++ ys) = match advance t .follow here xs with
      | .ok (.arrived (.entry loc _)) => advance t purpose loc ys
      | .ok (.arrived _) => .error .notFound
      | .ok (.link dir path rest) => .ok (.link dir path (rest ++ ys))
      | .error e => .error e := by
  -- where the first segments end, the others ask for a directory, as a last segment never does
  induction xs generalizing here with
  | nil =>
    obtain ⟨y, rest, rfl⟩ := List.exists_cons_of_ne_nil hys
    cases hn : t.node? here with
    | none => simp [advance, hn]
    | some node => simp [advance, hn]
  | cons x xs ih =>
    have hxs : xs ++ ys ≠ [] := by simp [hys]
    rw [List.cons_append]
    cases hn : t.node? here with
    | none => simp [advance, hn]
    | some node =>
      cases node with
      | file | link | device => simp [advance, hn]
      | directory es =>
        by_cases hdot : x = [] ∨ x = [Bytes.dot]
        · simp only [advance, hn, if_pos hdot, ih]
        by_cases hdots : x = [Bytes.dot, Bytes.dot]
        · simp only [advance, hn, if_neg hdot, if_pos hdots, ih]
        by_cases hlong : maxName < x.length
        · simp [advance, hn, hdot, hdots, hlong]
        cases hname : Name.ofBytes? x with
        | none => simp [advance, hn, hdot, hdots, hlong, hp, hname]
        | some name =>
          cases hf : Entries.find? es name with
          | none => by_cases hr : xs = [] <;>
              simp [advance, hn, hdot, hdots, hlong, hp, hname, hf, hr, hys]
          | some node =>
            cases node with
            | link target => simp [advance, hn, hdot, hdots, hlong, hp, hname, hf, hys]
            | file | directory | device =>
              simp [advance, hn, hdot, hdots, hlong, hp, hname, hf, ih]

theorem node?_of_advance {here loc : Location} {xs : List Bytes} {node : Node}
    (h : advance t .follow here xs = .ok (.arrived (.entry loc node))) :
    t.node? loc = some node := by
  induction xs generalizing here with
  | nil =>
    simp only [advance] at h
    split at h
    · cases h
      assumption
    · cases h
  | cons x xs ih =>
    simp only [advance, reduceCtorEq, and_false, if_false] at h
    repeat' split at h
    all_goals first
      | exact ih h
      | cases h

theorem resolveFrom_eq (purpose : Purpose) (links : Nat) (here : Location) (todo : List Bytes) :
    resolveFrom t purpose links here todo = match advance t purpose here todo with
      | .error e => .error e
      | .ok (.arrived target) => .ok target
      | .ok (.link dir path rest) => match links with
        | 0 => .error .tooManyLinks
        | links + 1 => if path = [] then .error .notFound
          else resolveFrom t purpose links (if (Path.mk path).isAbsolute then [] else dir)
            (steps ⟨path⟩ ++ rest) := by
  refine (resolveFrom.eq_def t purpose links here todo).trans ?_
  cases links <;> rfl

theorem node?_of_resolveFrom {links : Nat} {here loc : Location} {xs : List Bytes} {node : Node}
    (h : resolveFrom t .follow links here xs = .ok (.entry loc node)) :
    t.node? loc = some node := by
  induction links using Nat.strongRecOn generalizing here xs with
  | ind links ih =>
    rw [resolveFrom_eq] at h
    split at h
    · cases h
    · cases h
      exact node?_of_advance ‹_›
    · cases links with
      | zero => cases h
      | succ left =>
        dsimp only at h
        split at h
        · cases h
        · exact ih left (Nat.lt_succ_self left) h

/-- A resolution goes on likewise, with the links that are left. -/
theorem resolveFrom_append {purpose : Purpose} (hp : purpose ≠ .create) {ys : List Bytes}
    (hys : ys ≠ []) (links : Nat) (here : Location) (xs : List Bytes) :
    resolveFrom t purpose links here (xs ++ ys) = match approach t links here xs with
      | .ok (left, loc) => resolveFrom t purpose left loc ys
      | .error e => .error e := by
  induction links using Nat.strongRecOn generalizing here xs with
  | ind links ih =>
    rw [resolveFrom_eq, advance_append hp hys, approach]
    cases advance t .follow here xs with
    | error e => rfl
    | ok progress =>
      rcases progress with (⟨loc, node⟩ | ⟨dir, name⟩ | _) | ⟨dir, path, rest⟩
      · dsimp only
        rw [resolveFrom_eq purpose _ loc ys]
      · rfl
      · rfl
      -- a link on the way is followed in the same manner on both sides, as long as one may be
      · cases links with
        | zero => rfl
        | succ left =>
          dsimp only
          split
          · rfl
          · rw [← List.append_assoc, ih left (Nat.lt_succ_self left)]

/-- Something stands where an approach ends, and it is what the segments lead to. -/
theorem resolveFrom_of_approach {links left : Nat} {here loc : Location} {xs : List Bytes}
    (h : approach t links here xs = .ok (left, loc)) :
    ∃ node, t.node? loc = some node ∧
      resolveFrom t .follow links here xs = .ok (.entry loc node) := by
  induction links using Nat.strongRecOn generalizing here xs with
  | ind links ih =>
    rw [approach] at h
    rw [resolveFrom_eq]
    cases ha : advance t .follow here xs with
    | error e =>
      rw [ha] at h
      cases h
    | ok progress =>
      rw [ha] at h
      rcases progress with (⟨loc', node⟩ | ⟨dir, name⟩ | _) | ⟨dir, path, rest⟩
      · cases h
        exact ⟨node, node?_of_advance ha, rfl⟩
      · cases h
      · cases h
      · cases links with
        | zero => cases h
        | succ left =>
          dsimp only at h ⊢
          split at h
          · cases h
          · rename_i hpath
            rw [if_neg hpath]
            exact ih left (Nat.lt_succ_self left) h

theorem directory_of_resolveFrom_cons {purpose : Purpose} {links : Nat} {here : Location}
    {node : Node} {x : Bytes} {xs : List Bytes} {target : Target} (hnode : t.node? here = some node)
    (h : resolveFrom t purpose links here (x :: xs) = .ok target) : ∃ es, node = .directory es := by
  rw [resolveFrom_eq] at h
  cases node with
  | directory es => exact ⟨es, rfl⟩
  | file | link | device =>
    simp only [advance, hnode] at h
    cases h

theorem advance_name {here : Location} {es : Entries} (purpose : Purpose) (n : Name)
    (hnode : t.node? here = some (.directory es)) :
    advance t purpose here [n.bytes] =
      if maxName < n.bytes.length then .error .nameTooLong
      else match Entries.find? es n with
        | none => .ok (.arrived (.absent here n))
        | some (.link target) =>
          if purpose = .name then .ok (.arrived (.entry (here ++ [n]) (.link target)))
          else .ok (.link here target [])
        | some node => .ok (.arrived (.entry (here ++ [n]) node)) := by
  simp only [advance, hnode, n.bytes_ne_nil, n.bytes_ne_dot, n.bytes_ne_dots, or_self, if_false,
    Name.ofBytes?_bytes, reduceCtorEq, and_false, if_true, true_and]
  congr 1
  cases hf : Entries.find? es n with
  | none => rfl
  | some node =>
    have hthere : t.node? (here ++ [n]) = some node := by rw [Tree.node?_concat hnode, hf]
    cases node <;> simp [hthere]

/-- A name leads to the entry of that name, or to where that is missing, unless it is a link that is
to be followed. -/
theorem target_of_resolveFrom_name {purpose : Purpose} {links : Nat} {here : Location}
    {es : Entries} {n : Name} {target : Target} (hnode : t.node? here = some (.directory es))
    (h : resolveFrom t purpose links here [n.bytes] = .ok target) :
    target = .absent here n ∨ ∃ node, Entries.find? es n = some node ∧
      (target = .entry (here ++ [n]) node ∨ purpose ≠ .name ∧ node.kind = .link) := by
  rw [resolveFrom_eq, advance_name purpose n hnode] at h
  by_cases hlong : maxName < n.bytes.length
  · rw [if_pos hlong] at h
    cases h
  rw [if_neg hlong] at h
  cases hf : Entries.find? es n with
  | none =>
    rw [hf] at h
    cases h
    exact .inl rfl
  | some node =>
    rw [hf] at h
    refine .inr ⟨node, rfl, ?_⟩
    cases node with
    | link path =>
      by_cases hp : purpose = .name
      · simp only [if_pos hp] at h
        cases h
        exact .inl rfl
      · exact .inr ⟨hp, rfl⟩
    | file | directory | device =>
      cases h
      exact .inl rfl

/-- Whether a link at the end is followed makes a difference only if there is one. -/
theorem advance_follow_or_link (here : Location) (xs : List Bytes) :
    advance t .name here xs = advance t .follow here xs ∨
      ∃ loc path, advance t .name here xs = .ok (.arrived (.entry loc (.link path))) := by
  induction xs generalizing here with
  | nil => exact .inl rfl
  | cons x xs ih =>
    simp only [advance, reduceCtorEq, false_and, and_true, and_false, if_false]
    repeat' split
    all_goals first
      | exact ih _
      | exact .inl rfl
      | exact .inr ⟨_, _, rfl⟩

theorem resolveFrom_follow_or_link (links : Nat) (here : Location) (xs : List Bytes) :
    resolveFrom t .name links here xs = resolveFrom t .follow links here xs ∨
      ∃ loc path, resolveFrom t .name links here xs = .ok (.entry loc (.link path)) := by
  induction links using Nat.strongRecOn generalizing here xs with
  | ind links ih =>
    rw [resolveFrom_eq, resolveFrom_eq]
    obtain h | ⟨loc, path, h⟩ := advance_follow_or_link (t := t) here xs <;> rw [h]
    · cases advance t .follow here xs with
      | error e => exact .inl rfl
      | ok progress =>
        cases progress with
        | arrived target => exact .inl rfl
        | link dir path rest =>
          cases links with
          | zero => exact .inl rfl
          | succ left =>
            dsimp only
            split
            · exact .inl rfl
            · exact ih left (Nat.lt_succ_self left) _ _
    · exact .inr ⟨loc, path, rfl⟩

/-- Where the way out of directories that are gone ends, and the segments that are left there. -/
def emerge : (lost : Nat) → Location → List Bytes → Option (Location × List Bytes)
  | 0, here, todo => some (here, todo)
  | _ + 1, _, [] => none
  | lost + 1, here, s :: rest =>
    if s = [] ∨ s = [Bytes.dot] then emerge (lost + 1) here rest
    else if s = [Bytes.dot, Bytes.dot] then emerge lost here.dropLast rest
    else none
termination_by _ _ todo => todo.length

theorem emerge_append {lost : Nat} {here loc : Location} {xs todo : List Bytes}
    (h : emerge lost here xs = some (loc, todo)) (ys : List Bytes) :
    emerge lost here (xs ++ ys) = some (loc, todo ++ ys) := by
  fun_induction emerge lost here xs with
  | case1 here xs =>
    cases h
    simp [emerge]
  | case2 | case5 => cases h
  | case3 lost here s rest hs ih =>
    rw [List.cons_append, emerge, if_pos hs]
    exact ih h
  | case4 lost here rest hs ih =>
    rw [List.cons_append, emerge, if_neg hs, if_pos rfl]
    exact ih h

/-- A name is found only below a directory that is there. -/
theorem resolveBelow_concat {purpose : Purpose} {lost : Nat} {here : Location} {xs : List Bytes}
    (n : Name) (h : emerge lost here xs = none) :
    resolveBelow t purpose lost here (xs ++ [n.bytes]) = .error .notFound := by
  have hproper : ¬(n.bytes = [] ∨ n.bytes = [Bytes.dot]) := by simp [n.bytes_ne_nil, n.bytes_ne_dot]
  fun_induction emerge lost here xs with
  | case1 => cases h
  | case2 lost here => rw [List.nil_append, resolveBelow, if_neg hproper, if_neg n.bytes_ne_dots]
  | case3 lost here s rest hs ih =>
    rw [List.cons_append, resolveBelow, if_pos hs]
    exact ih h
  | case4 lost here rest hs ih =>
    rw [List.cons_append, resolveBelow, if_neg hs, if_pos rfl]
    exact ih h
  | case5 lost here s rest hs hdots => rw [List.cons_append, resolveBelow, if_neg hs, if_neg hdots]

theorem resolveBelow_of_emerge {purpose : Purpose} {lost : Nat} {here loc : Location}
    {xs todo : List Bytes} (h : emerge lost here xs = some (loc, todo)) :
    resolveBelow t purpose lost here xs = resolveFrom t purpose maxLinks loc todo := by
  fun_induction emerge lost here xs with
  | case1 here xs =>
    cases h
    rw [resolveBelow]
  | case2 | case5 => cases h
  | case3 lost here s rest hs ih =>
    rw [resolveBelow, if_pos hs]
    exact ih h
  | case4 lost here rest hs ih =>
    rw [resolveBelow, if_neg hs, if_pos rfl]
    exact ih h

/-- Where no way leads out, nothing is found, whatever the tree and the purpose are. -/
theorem resolveBelow_of_emerge_none {lost : Nat} {here : Location} {xs : List Bytes}
    (h : emerge lost here xs = none) :
    (∀ t purpose, resolveBelow t purpose lost here xs = .ok .lost) ∨
      ∀ t purpose, resolveBelow t purpose lost here xs = .error .notFound := by
  fun_induction emerge lost here xs with
  | case1 => cases h
  | case2 lost here => exact .inl fun t purpose => by rw [resolveBelow]
  | case3 lost here s rest hs ih =>
    simp only [resolveBelow, if_pos hs]
    exact ih h
  | case4 lost here rest hs ih =>
    simp only [resolveBelow, if_neg hs, if_true]
    exact ih h
  | case5 lost here s rest hs hdots =>
    exact .inr fun t purpose => by rw [resolveBelow, if_neg hs, if_neg hdots]

end Resolution

namespace FileSystem

open Resolution

variable {fs : FileSystem} {p : Path} {n : Name}

/-- How many directories are gone on the way up from where a path starts, and the place where that
is. -/
def start (fs : FileSystem) (p : Path) : Nat × Location :=
  if p.isAbsolute then (0, []) else (fs.cwd.lost fs.tree, fs.cwd.place)

theorem resolve_eq_ok_iff {purpose : Purpose} {target : Target} :
    fs.resolve purpose p = .ok target ↔ FileSystem.validate p = .ok () ∧
      resolveBelow fs.tree purpose (fs.start p).1 (fs.start p).2 (steps p) = .ok target := by
  unfold resolve ofPath start
  cases hv : FileSystem.validate p with
  | error e => simp [bind, Except.bind]
  | ok _ =>
    have hv' : Resolution.validate p = .ok () := by
      unfold FileSystem.validate at hv
      cases h : Resolution.validate p with
      | ok _ => rfl
      | error e =>
        rw [h] at hv
        cases hv
    split <;> simp [bind, Except.bind, resolveBelow, *]

theorem validate_eq_ok_iff : FileSystem.validate p = .ok () ↔
    (0 : UInt8) ∉ p.bytes ∧ p.bytes ≠ [] ∧ p.bytes.length ≤ maxPath := by
  unfold FileSystem.validate Resolution.validate
  by_cases hz : (0 : UInt8) ∈ p.bytes
  · simp [hz, bind, Except.bind]
  by_cases hn : p.bytes = []
  · simp [hn, bind, Except.bind]
  by_cases hl : p.bytes.length > maxPath
  · simp [hz, hn, hl, bind, Except.bind, throw, throwThe, MonadExceptOf.throw]
  · simp [hz, hn, hl, bind, Except.bind, pure, Except.pure, Nat.le_of_not_gt hl]

theorem validate_child (hp : p.bytes ≠ []) (h : FileSystem.validate (p.child n) = .ok ()) :
    FileSystem.validate p = .ok () := by
  rw [validate_eq_ok_iff] at h ⊢
  have hlength : p.bytes.length + n.bytes.length ≤ (p.child n).bytes.length := p.length_child n
  exact ⟨fun hz => h.1 (Path.mem_child hz), hp, by omega⟩

theorem start_child : fs.start (p.child n) = fs.start p := by
  unfold start
  rw [Path.isAbsolute_child]

theorem steps_child (hp : p.bytes ≠ []) : steps (p.child n) = p.segments ++ [n.bytes] := by
  rw [steps, if_neg (Path.getLast?_child p n), Path.segments_child hp]

/-- An entry below a path is found in the directory to which the path leads. -/
theorem resolve_child {purpose : Purpose} (hpurpose : purpose ≠ .create) (hp : p.bytes ≠ [])
    {target : Target} (h : fs.resolve purpose (p.child n) = .ok target) :
    ∃ left dir es, fs.tree.node? dir = some (.directory es) ∧
      fs.resolve .follow p = .ok (.entry dir (.directory es)) ∧
      resolveFrom fs.tree purpose left dir [n.bytes] = .ok target := by
  obtain ⟨hv, hr⟩ := resolve_eq_ok_iff.mp h
  rw [start_child, steps_child hp] at hr
  cases he : emerge (fs.start p).1 (fs.start p).2 p.segments with
  | none =>
    rw [resolveBelow_concat n he] at hr
    cases hr
  | some out =>
    obtain ⟨here, todo⟩ := out
    rw [resolveBelow_of_emerge (emerge_append he [n.bytes]),
      resolveFrom_append hpurpose (List.cons_ne_nil _ _)] at hr
    cases ha : approach fs.tree maxLinks here todo with
    | error e =>
      rw [ha] at hr
      cases hr
    | ok found =>
      obtain ⟨left, dir⟩ := found
      rw [ha] at hr
      obtain ⟨node, hnode, hfollow⟩ := resolveFrom_of_approach ha
      obtain ⟨es, rfl⟩ := directory_of_resolveFrom_cons hnode hr
      refine ⟨left, dir, es, hnode, resolve_eq_ok_iff.mpr ⟨validate_child hp hv, ?_⟩, hr⟩
      unfold steps
      split
      -- a slash at the end asks for the directory that is there
      · rw [resolveBelow_of_emerge (emerge_append he [[]]),
          resolveFrom_append (by decide) (List.cons_ne_nil _ _), ha]
        simp [resolveFrom_eq, advance, hnode]
      · rw [resolveBelow_of_emerge he]
        exact hfollow

theorem entry_eq_ok_iff {purpose : Purpose} {node : Node} : fs.entry purpose p = .ok node ↔
    (∃ loc, fs.resolve purpose p = .ok (.entry loc node)) ∨
      (fs.resolve purpose p = .ok .lost ∧ node = .directory []) := by
  unfold entry
  rcases fs.resolve purpose p with e | ⟨loc, found⟩ | ⟨dir, name⟩ | _ <;> simp [eq_comm]

theorem length_le_of_entry {purpose : Purpose} {node : Node} (h : fs.entry purpose p = .ok node) :
    p.bytes.length ≤ maxPath := by
  obtain ⟨_, hr⟩ | ⟨hr, -⟩ := entry_eq_ok_iff.mp h <;>
    exact (validate_eq_ok_iff.mp (resolve_eq_ok_iff.mp hr).1).2.2

theorem bytes_ne_nil_of_entry {purpose : Purpose} {node : Node}
    (h : fs.entry purpose p = .ok node) : p.bytes ≠ [] := by
  obtain ⟨_, hr⟩ | ⟨hr, -⟩ := entry_eq_ok_iff.mp h <;>
    exact (validate_eq_ok_iff.mp (resolve_eq_ok_iff.mp hr).1).2.1

theorem status_of_isFile (h : fs.isFile p = true) :
    ∃ content executable, fs.status p = .ok (.file content executable) := by
  unfold isFile at h
  split at h
  · exact ⟨_, _, ‹_›⟩
  · cases h

theorem node?_of_resolve {loc : Location} {node : Node}
    (h : fs.resolve .follow p = .ok (.entry loc node)) : fs.tree.node? loc = some node := by
  obtain ⟨-, hr⟩ := resolve_eq_ok_iff.mp h
  cases he : emerge (fs.start p).1 (fs.start p).2 (steps p) with
  | none =>
    rcases resolveBelow_of_emerge_none he with hnone | hnone
    · rw [hnone] at hr
      cases hr
    · rw [hnone] at hr
      cases hr
  | some out =>
    rw [resolveBelow_of_emerge he] at hr
    exact node?_of_resolveFrom hr

/-- What is found below a path is an entry of the directory to which that leads, or what a link
among them leads to. -/
theorem entry_child {purpose : Purpose} (hpurpose : purpose ≠ .create) (hp : p.bytes ≠ [])
    {node : Node} (h : fs.entry purpose (p.child n) = .ok node) :
    ∃ es found, fs.status p = .ok (.directory es) ∧ Entries.find? es n = some found ∧
      (found = node ∨ purpose ≠ .name ∧ found.kind = .link) := by
  obtain ⟨loc, hr⟩ | ⟨hr, rfl⟩ := entry_eq_ok_iff.mp h
  · obtain ⟨left, dir, es, hnode, hdir, hname⟩ := resolve_child hpurpose hp hr
    obtain habsent | ⟨found, hfind, hentry⟩ := target_of_resolveFrom_name hnode hname
    · cases habsent
    · refine ⟨es, found, entry_eq_ok_iff.mpr (.inl ⟨dir, hdir⟩), hfind, hentry.imp_left ?_⟩
      intro h
      cases h
      rfl
  · obtain ⟨left, dir, es, hnode, hdir, hname⟩ := resolve_child hpurpose hp hr
    obtain habsent | ⟨found, hfind, hentry | hlink⟩ := target_of_resolveFrom_name hnode hname
    · cases habsent
    · cases hentry
    · exact ⟨es, found, entry_eq_ok_iff.mpr (.inl ⟨dir, hdir⟩), hfind, .inr hlink⟩

theorem resolve_follow_or_link (fs : FileSystem) (p : Path) :
    fs.resolve .name p = fs.resolve .follow p ∨
      ∃ loc path, fs.resolve .name p = .ok (.entry loc (.link path)) := by
  have hlinks (here : Location) (todo : List Bytes) :=
    resolveFrom_follow_or_link (t := fs.tree) maxLinks here todo
  simp only [resolve, ofPath, bind, Except.bind]
  split
  · exact .inl rfl
  split
  · exact .inl rfl
  split
  · exact hlinks [] (steps p)
  · cases he : emerge (fs.cwd.lost fs.tree) fs.cwd.place (steps p) with
    | none =>
      obtain hnone | hnone := resolveBelow_of_emerge_none he <;> exact .inl (by rw [hnone, hnone])
    | some out =>
      rw [resolveBelow_of_emerge he, resolveBelow_of_emerge he]
      exact hlinks out.1 out.2

/-- What a path names is what it leads to, unless it names a link. -/
theorem linkStatus_eq_or_link (fs : FileSystem) (p : Path) :
    fs.linkStatus p = fs.status p ∨ ∃ path, fs.linkStatus p = .ok (.link path) := by
  unfold linkStatus status entry
  obtain h | ⟨loc, path, h⟩ := fs.resolve_follow_or_link p <;> rw [h]
  · exact .inl rfl
  · exact .inr ⟨path, rfl⟩

theorem linkStatus_of_status {node : Node} (h : fs.status p = .ok node) :
    ∃ named, fs.linkStatus p = .ok named ∧ (named = node ∨ named.kind = .link) := by
  obtain heq | ⟨path, hlink⟩ := fs.linkStatus_eq_or_link p
  · exact ⟨node, heq.trans h, .inl rfl⟩
  · exact ⟨.link path, hlink, .inr rfl⟩

end FileSystem

end Groom
