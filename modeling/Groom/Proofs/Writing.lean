import Groom.Proofs.Layout

/-! Writing to a file. A path asks for the same place whether the file is to be read or written, as
long as there is a file. A file that is missing is created where the path leads to nothing, and then
the path leads to it. Either way the tree stays as it was everywhere else. -/
namespace Groom

namespace Node

/-- An entry on its own, without the entries of a directory. -/
def bare : Node → Node
  | .directory _ => .directory []
  | node => node

/-- When an entry is put where there is none, nothing changes that can be read off nodes and is the
same for all directories, except at its place and below. -/
theorem map_alter_new {α : Type} {f : Node → α} {node new : Node} {dir : Location} {es : Entries}
    {name : Name} (h : node.at? dir = some (.directory es)) (hnone : Entries.find? es name = none)
    (hnew : new.isDirectory = false) (hdir : ∀ es es', f (.directory es) = f (.directory es'))
    {loc : Location} (hne : loc ≠ dir ++ [name]) :
    ((node.alter (fun _ => some new) (dir ++ [name])).at? loc).map f = (node.at? loc).map f := by
  induction dir generalizing node loc with
  | nil =>
    obtain rfl := Option.some.inj h
    cases loc with
    | nil => exact congrArg some (hdir _ _)
    | cons n rest =>
      change ((directory (Entries.insert es name new)).at? (n :: rest)).map f = _
      rw [at?_insert]
      split
      · rename_i hn
        subst hn
        cases rest with
        | nil => exact absurd rfl hne
        | cons m rest =>
          have hbelow : new.at? (m :: rest) = none := by
            cases new with
            | directory es => cases hnew
            | file | link | device => rfl
          rw [hbelow, at?, hnone]
          rfl
      · rfl
  | cons m dir ih =>
    cases node with
    | file | link | device => cases h
    | directory es' =>
      obtain ⟨child, hfind, hchild⟩ := Option.bind_eq_some_iff.mp h
      rw [List.cons_append, alter_cons_of_find? hfind]
      cases loc with
      | nil => exact congrArg some (hdir _ _)
      | cons n rest =>
        rw [at?_insert]
        split
        · rename_i hn
          subst hn
          rw [ih hchild fun heq => hne (by rw [heq]; rfl), at?, hfind]
          rfl
        · rfl

theorem at?_alter_new {node new : Node} {dir : Location} {es : Entries} {name : Name}
    (h : node.at? dir = some (.directory es)) :
    (node.alter (fun _ => some new) (dir ++ [name])).at? (dir ++ [name]) = some new := by
  induction dir generalizing node with
  | nil =>
    obtain rfl := Option.some.inj h
    simp [alter, at?, Entries.find?_insert_self]
  | cons m dir ih =>
    cases node with
    | file | link | device => cases h
    | directory es' =>
      obtain ⟨child, hfind, hchild⟩ := Option.bind_eq_some_iff.mp h
      rw [List.cons_append, alter_cons_of_find? hfind, at?_insert, if_pos rfl]
      exact ih hchild

end Node

namespace Tree

variable {t t' : Tree} {loc dir : Location} {name : Name} {es : Entries}

/-- The second tree has this entry at a place, and is the first one everywhere else. -/
structure PutAt (t t' : Tree) (loc : Location) (node : Node) : Prop where
  there : t'.node? loc = some node
  others : ∀ loc', loc' ≠ loc → (t'.node? loc').map Node.bare = (t.node? loc').map Node.bare
  removals : t'.removals = t.removals

theorem removals_alter (t : Tree) (loc : Location) (change : Option Node → Option Node) :
    (t.alter loc change).removals = t.removals := by
  unfold alter
  split <;> rfl

theorem PutAt.file {content new : Bytes} {x x' : Bool}
    (h : t.node? loc = some (.file content x)) :
    t.PutAt (t.put loc (.file new x')) loc (.file new x') where
  there := by rw [node?_put_file h, Node.at?_alter_self h]
  others loc' hne := map_put_file h (fun _ _ => rfl) loc' (absurd · hne)
  removals := removals_alter ..

/-- The root is there, so an entry that is put in a directory is put below the root. -/
theorem node?_put_new (h : t.node? dir = some (.directory es)) (new : Node) (loc : Location) :
    (t.put (dir ++ [name]) new).node? loc =
      (t.root.alter (fun _ => some new) (dir ++ [name])).at? loc := by
  cases dir with
  | nil => rfl
  | cons m dir =>
    obtain ⟨child, hfind, -⟩ := Option.bind_eq_some_iff.mp h
    unfold put alter
    rw [root, List.cons_append, Node.alter_cons_of_find? hfind]
    rfl

theorem PutAt.new {content : Bytes} {x : Bool} (h : t.node? dir = some (.directory es))
    (hnone : Entries.find? es name = none) :
    t.PutAt (t.put (dir ++ [name]) (.file content x)) (dir ++ [name]) (.file content x) where
  there := by rw [node?_put_new h, Node.at?_alter_new h]
  others loc' hne := by
    rw [node?_put_new h]
    exact Node.map_alter_new h hnone rfl (fun _ _ => rfl) hne
  removals := removals_alter ..

/-- Where nothing was put, a directory is still a directory. -/
theorem PutAt.directory {node : Node} (h : t.PutAt t' loc node) {loc' : Location} (hne : loc' ≠ loc)
    (hes : t.node? loc' = some (.directory es)) : ∃ es', t'.node? loc' = some (.directory es') := by
  have hbare := h.others loc' hne
  rw [hes] at hbare
  obtain ⟨node', hnode', hbare⟩ := Option.map_eq_some_iff.mp hbare
  cases node' with
  | directory es' => exact ⟨es', hnode'⟩
  | file | link | device => cases hbare

end Tree

namespace Resolution

variable {t t' : Tree}

/-- What a way along segments comes to when what it leads to is another target. -/
def Progress.reaching (target : Target) : Progress → Progress
  | .arrived _ => .arrived target
  | .link dir path todo => .link dir path todo

theorem progress_of_resolveFrom {purpose : Purpose} {links : Nat} {here : Location}
    {xs : List Bytes} {target : Target} {progress : Progress}
    (h : resolveFrom t purpose links here xs = .ok target)
    (ha : advance t purpose here xs = .ok progress) :
    progress = .arrived target ∨ ∃ d p rest, progress = .link d p rest := by
  rw [resolveFrom_eq, ha] at h
  cases progress with
  | arrived found =>
    cases h
    exact .inl rfl
  | link d p rest => exact .inr ⟨d, p, rest, rfl⟩

/-- Two resolutions that meet the same links end alike, if the last ways along segments do. -/
theorem resolveFrom_transfer {purpose purpose' : Purpose} {target target' : Target}
    (hstep : ∀ {links here xs progress}, resolveFrom t purpose links here xs = .ok target →
      advance t purpose here xs = .ok progress →
        advance t' purpose' here xs = .ok (progress.reaching target'))
    {links : Nat} {here : Location} {xs : List Bytes}
    (h : resolveFrom t purpose links here xs = .ok target) :
    resolveFrom t' purpose' links here xs = .ok target' := by
  induction links using Nat.strongRecOn generalizing here xs with
  | ind links ih =>
    have hstart := h
    rw [resolveFrom_eq] at h ⊢
    cases ha : advance t purpose here xs with
    | error e =>
      rw [ha] at h
      cases h
    | ok progress =>
      rw [ha] at h
      rw [hstep hstart ha]
      cases progress with
      | arrived found => rfl
      | link dir path rest =>
        cases links with
        | zero => cases h
        | succ left =>
          dsimp only [Progress.reaching] at h ⊢
          split at h
          · cases h
          · rename_i hpath
            rw [if_neg hpath]
            exact ih left (Nat.lt_succ_self left) h

/-- Where a file may be created, the path leads there also when links are just followed. -/
theorem advance_of_create {here : Location} {xs : List Bytes} {progress : Progress}
    (h : advance t .create here xs = .ok progress) : advance t .follow here xs = .ok progress := by
  induction xs generalizing here with
  | nil => exact h
  | cons x xs ih =>
    simp only [advance, reduceCtorEq, true_and, false_and, and_false, if_false] at h ⊢
    repeat' split at h
    all_goals first
      | exact ih h
      | cases h; done
      | simp_all

theorem resolveFrom_of_create {links : Nat} {here : Location} {xs : List Bytes} {target : Target}
    (h : resolveFrom t .create links here xs = .ok target) :
    resolveFrom t .follow links here xs = .ok target := by
  refine resolveFrom_transfer (fun h ha => ?_) h
  obtain rfl | ⟨d, p, rest, rfl⟩ := progress_of_resolveFrom h ha <;> exact advance_of_create ha

/-- The way to a file that is to be created is that of following links, or the segments end in a
slash. -/
theorem advance_create_or_slash (here : Location) (xs : List Bytes) :
    advance t .create here xs = advance t .follow here xs ∨ ∃ ys, xs = ys ++ [[]] := by
  induction xs generalizing here with
  | nil => exact .inl rfl
  | cons x xs ih =>
    by_cases hslash : xs = [[]]
    · exact .inr ⟨[x], by rw [hslash]; rfl⟩
    have hnext (next : Location) : advance t .create next xs = advance t .follow next xs ∨
        ∃ ys, x :: xs = ys ++ [[]] :=
      (ih next).imp_right fun ⟨ys, hys⟩ => ⟨x :: ys, by rw [hys]; rfl⟩
    simp only [advance, reduceCtorEq, hslash, and_false, if_false]
    repeat' split
    all_goals first
      | exact hnext _
      | exact .inl rfl

/-- A slash at the end asks for a directory. -/
theorem directory_of_slash {links : Nat} {here loc : Location} {node : Node} {xs : List Bytes}
    (h : resolveFrom t .follow links here (xs ++ [[]]) = .ok (.entry loc node)) :
    ∃ es, node = .directory es := by
  rw [resolveFrom_append (by decide) (List.cons_ne_nil _ _)] at h
  cases ha : approach t links here xs with
  | error e =>
    rw [ha] at h
    cases h
  | ok found =>
    obtain ⟨left, place⟩ := found
    rw [ha] at h
    obtain ⟨node', hnode', -⟩ := resolveFrom_of_approach ha
    obtain ⟨es, rfl⟩ := directory_of_resolveFrom_cons hnode' h
    simp only [resolveFrom_eq, advance, hnode', true_or, if_true] at h
    cases h
    exact ⟨es, rfl⟩

/-- So a file that is there is also found when it is to be written. -/
theorem resolveFrom_create_of_file {links : Nat} {here loc : Location} {xs : List Bytes}
    {content : Bytes} {x : Bool}
    (h : resolveFrom t .follow links here xs = .ok (.entry loc (.file content x))) :
    resolveFrom t .create links here xs = .ok (.entry loc (.file content x)) := by
  refine resolveFrom_transfer (fun {_ here xs _} h ha => ?_) h
  obtain heq | ⟨ys, rfl⟩ := advance_create_or_slash (t := t) here xs
  · rw [heq]
    obtain rfl | ⟨d, p, rest, rfl⟩ := progress_of_resolveFrom h ha <;> exact ha
  · obtain ⟨es, hes⟩ := directory_of_slash h
    cases hes

theorem absent_of_advance {here dir : Location} {xs : List Bytes} {name : Name}
    {purpose : Purpose} (h : advance t purpose here xs = .ok (.arrived (.absent dir name))) :
    ∃ es, t.node? dir = some (.directory es) ∧ Entries.find? es name = none := by
  induction xs generalizing here with
  | nil =>
    simp only [advance] at h
    split at h <;> cases h
  | cons x xs ih =>
    simp only [advance] at h
    repeat' split at h
    all_goals first
      | exact ih h
      | cases h; done
      | (cases h; exact ⟨_, ‹_›, ‹_›⟩)

theorem absent_of_resolveFrom {links : Nat} {here dir : Location} {xs : List Bytes} {name : Name}
    {purpose : Purpose} (h : resolveFrom t purpose links here xs = .ok (.absent dir name)) :
    ∃ es, t.node? dir = some (.directory es) ∧ Entries.find? es name = none := by
  induction links using Nat.strongRecOn generalizing here xs with
  | ind links ih =>
    rw [resolveFrom_eq] at h
    split at h
    · cases h
    · cases h
      exact absent_of_advance ‹_›
    · cases links with
      | zero => cases h
      | succ left =>
        dsimp only at h
        split at h
        · cases h
        · exact ih left (Nat.lt_succ_self left) h

variable {dir : Location} {name : Name} {node : Node}

/-- A link is met as before when an entry is put where nothing was, and the way that led there ends
at the entry. -/
theorem advance_putAt (hput : t.PutAt t' (dir ++ [name]) node)
    (hnone : t.node? (dir ++ [name]) = none) (hlink : node.kind ≠ .link) {here : Location}
    {xs : List Bytes} {progress : Progress} (h : advance t .follow here xs = .ok progress)
    (hend : progress = .arrived (.absent dir name) ∨ ∃ d p rest, progress = .link d p rest) :
    advance t' .follow here xs = .ok (progress.reaching (.entry (dir ++ [name]) node)) := by
  induction xs generalizing here with
  | nil =>
    simp only [advance] at h
    split at h
    · cases h
      obtain heq | ⟨d, p, rest, heq⟩ := hend <;> cases heq
    · cases h
  | cons x xs ih =>
    cases hn : t.node? here with
    | none => simp [advance, hn] at h
    | some found =>
      cases found with
      | file | link | device => simp [advance, hn] at h
      | directory es =>
        have hhere : here ≠ dir ++ [name] := by
          rintro rfl
          cases hnone.symm.trans hn
        obtain ⟨es', hn'⟩ := hput.directory hhere hn
        simp only [advance, hn, hn', reduceCtorEq, false_and, if_false] at h ⊢
        by_cases hdot : x = [] ∨ x = [Bytes.dot]
        · rw [if_pos hdot] at h ⊢
          exact ih h
        rw [if_neg hdot] at h ⊢
        by_cases hdots : x = [Bytes.dot, Bytes.dot]
        · rw [if_pos hdots] at h ⊢
          exact ih h
        rw [if_neg hdots] at h ⊢
        by_cases hlong : x.length > maxName
        · rw [if_pos hlong] at h
          cases h
        rw [if_neg hlong] at h ⊢
        cases hname : Name.ofBytes? x with
        | none =>
          rw [hname] at h
          cases h
        | some m =>
          rw [hname] at h
          dsimp only at h ⊢
          cases hfind : Entries.find? es m with
          | none =>
            rw [hfind] at h
            dsimp only at h
            split at h
            · rename_i hxs
              cases h
              obtain heq | ⟨d, p, rest, heq⟩ := hend <;> cases heq
              have hthere : Entries.find? es' name = some node := by
                rw [← Tree.node?_concat hn']
                exact hput.there
              rw [hthere]
              cases node with
              | link target => exact absurd rfl hlink
              | file | directory | device => simp [hxs, advance, hput.there, Progress.reaching]
            · cases h
          | some old =>
            have hold : t.node? (here ++ [m]) = some old := by rw [Tree.node?_concat hn, hfind]
            have hother : here ++ [m] ≠ dir ++ [name] := by
              intro heq
              rw [heq, hnone] at hold
              cases hold
            have hbare := hput.others _ hother
            rw [Tree.node?_concat hn', Tree.node?_concat hn, hfind] at hbare
            obtain ⟨new, hfind', hbare⟩ := Option.map_eq_some_iff.mp hbare
            rw [hfind] at h
            rw [hfind']
            cases old with
            | link target =>
              cases new with
              | link target' =>
                cases hbare
                simp only [and_false, if_false] at h ⊢
                cases h
                rfl
              | file | directory | device => cases hbare
            | file | directory | device =>
              cases new <;> first | cases hbare; done | exact ih h

theorem resolveFrom_putAt (hput : t.PutAt t' (dir ++ [name]) node)
    (hnone : t.node? (dir ++ [name]) = none) (hlink : node.kind ≠ .link) {links : Nat}
    {here : Location} {xs : List Bytes}
    (h : resolveFrom t .follow links here xs = .ok (.absent dir name)) :
    resolveFrom t' .follow links here xs = .ok (.entry (dir ++ [name]) node) :=
  resolveFrom_transfer
    (fun h ha => advance_putAt hput hnone hlink ha (progress_of_resolveFrom h ha)) h

end Resolution

namespace FileSystem

open Resolution

variable {fs fs' : FileSystem} {p : Path} {loc dir : Location} {name : Name} {content : Bytes}
  {x : Bool}

/-- What is known of ways from a place is so known of paths, if they start alike. -/
theorem resolve_transfer {purpose purpose' : Purpose} {target target' : Target}
    (h : fs.resolve purpose p = .ok target) (hstart : fs'.start p = fs.start p)
    (hlost : target = .lost → target' = .lost)
    (hfrom : ∀ here todo, resolveFrom fs.tree purpose maxLinks here todo = .ok target →
      resolveFrom fs'.tree purpose' maxLinks here todo = .ok target') :
    fs'.resolve purpose' p = .ok target' := by
  rw [resolve_eq_ok_iff] at h ⊢
  rw [hstart]
  refine ⟨h.1, ?_⟩
  have hbelow := h.2
  cases he : emerge (fs.start p).1 (fs.start p).2 (steps p) with
  | some out =>
    rw [resolveBelow_of_emerge he] at hbelow ⊢
    exact hfrom _ _ hbelow
  | none =>
    obtain hnone | hnone := resolveBelow_of_emerge_none he
    · rw [hnone] at hbelow ⊢
      cases hbelow
      rw [hlost rfl]
    · rw [hnone] at hbelow
      cases hbelow

theorem resolve_of_create {target : Target} (h : fs.resolve .create p = .ok target) :
    fs.resolve .follow p = .ok target :=
  resolve_transfer h rfl id fun _ _ => resolveFrom_of_create

theorem resolve_create_of_file (h : fs.resolve .follow p = .ok (.entry loc (.file content x))) :
    fs.resolve .create p = .ok (.entry loc (.file content x)) :=
  resolve_transfer h rfl (by simp) fun _ _ => resolveFrom_create_of_file

theorem absent_of_resolve {purpose : Purpose} (h : fs.resolve purpose p = .ok (.absent dir name)) :
    ∃ es, fs.tree.node? dir = some (.directory es) ∧ Entries.find? es name = none := by
  obtain ⟨-, hbelow⟩ := resolve_eq_ok_iff.mp h
  cases he : emerge (fs.start p).1 (fs.start p).2 (steps p) with
  | some out =>
    rw [resolveBelow_of_emerge he] at hbelow
    exact absent_of_resolveFrom hbelow
  | none => obtain hnone | hnone := resolveBelow_of_emerge_none he <;> rw [hnone] at hbelow <;>
      cases hbelow

/-- Where a path led to nothing, it leads to what is put there. -/
theorem leadsTo_putAt {t t' : Tree} {cwd : Working} {node : Node}
    (hput : t.PutAt t' (dir ++ [name]) node) (hnone : t.node? (dir ++ [name]) = none)
    (hlink : node.kind ≠ .link) (h : (mk t cwd).resolve .follow p = .ok (.absent dir name)) :
    (mk t' cwd).LeadsTo p (dir ++ [name]) := by
  have hstart : (mk t' cwd).start p = (mk t cwd).start p := by
    simp only [start, Working.lost, hput.removals]
  exact ⟨node, resolve_transfer h hstart (by simp) fun _ _ => resolveFrom_putAt hput hnone hlink⟩

theorem status_of_leadsTo {node : Node} (h : fs.LeadsTo p loc)
    (hnode : fs.tree.node? loc = some node) : fs.status p = .ok node := by
  obtain ⟨found, hr⟩ := h
  obtain rfl := Option.some.inj ((node?_of_resolve hr).symm.trans hnode)
  exact entry_eq_ok_iff.mpr (.inl ⟨loc, hr⟩)

/-- What may come of writing to a path. It fails only where no file is and none may be created. -/
theorem write_cases (t : Tree) (cwd : Working) (p : Path) (content : Bytes) :
    (∃ cause, (mk t cwd).write p content = .error cause ∧ (mk t cwd).isFile p = false ∧
      ∀ dir name, (mk t cwd).resolve .create p ≠ .ok (.absent dir name)) ∨
    ((mk t cwd).write p content = .ok ⟨t, cwd⟩ ∧ (mk t cwd).status p = .ok .device) ∨
    (∃ t' loc old x, (mk t cwd).write p content = .ok ⟨t', cwd⟩ ∧ (mk t cwd).LeadsTo p loc ∧
      (mk t' cwd).LeadsTo p loc ∧ t.node? loc = some (.file old x) ∧
      t.PutAt t' loc (.file content x)) ∨
    (∃ t' loc, (mk t cwd).write p content = .ok ⟨t', cwd⟩ ∧
      (mk t cwd).status p = .error .notFound ∧ (mk t' cwd).LeadsTo p loc ∧ t.node? loc = none ∧
      t.PutAt t' loc (.file content false)) := by
  have hfailed {cause : IoError} (h : (mk t cwd).write p content = .error cause) :
      (mk t cwd).isFile p = false := by
    refine Bool.eq_false_iff.mpr fun hf => ?_
    obtain ⟨old, x, hs⟩ := status_of_isFile hf
    obtain ⟨loc, hr⟩ | ⟨-, hd⟩ := entry_eq_ok_iff.mp hs
    · rw [write, resolve_create_of_file hr] at h
      cases h
    · cases hd
  cases hr : (mk t cwd).resolve .create p with
  | error cause =>
    have h : (mk t cwd).write p content = .error cause := by simp only [write, hr]
    exact .inl ⟨cause, h, hfailed h, nofun⟩
  | ok target =>
    have hfollow := resolve_of_create hr
    cases target with
    | lost =>
      have h : (mk t cwd).write p content = .error .isDirectory := by simp only [write, hr]
      exact .inl ⟨_, h, hfailed h, nofun⟩
    | absent dir name =>
      obtain ⟨es, hes, hnone⟩ := absent_of_resolve hr
      have hmissing : t.node? (dir ++ [name]) = none := by rw [Tree.node?_concat hes, hnone]
      have hput : t.PutAt (t.put (dir ++ [name]) (.file content false)) (dir ++ [name])
        (.file content false) := .new hes hnone
      have hleads := leadsTo_putAt hput hmissing nofun hfollow
      have hstatus : (mk t cwd).status p = .error .notFound := by simp [status, entry, hfollow]
      have h : (mk t cwd).write p content =
          .ok ⟨t.put (dir ++ [name]) (.file content false), cwd⟩ := by
        simp only [write, hr]
        rfl
      exact .inr (.inr (.inr ⟨_, _, h, hstatus, hleads, hmissing, hput⟩))
    | entry loc node =>
      have hstatus : (mk t cwd).status p = .ok node := entry_eq_ok_iff.mpr (.inl ⟨loc, hfollow⟩)
      have hnode : t.node? loc = some node := node?_of_resolve hfollow
      cases node with
      | directory es =>
        have h : (mk t cwd).write p content = .error .isDirectory := by simp only [write, hr]
        exact .inl ⟨_, h, hfailed h, nofun⟩
      | link target =>
        have h : (mk t cwd).write p content = .error .tooManyLinks := by simp only [write, hr]
        exact .inl ⟨_, h, hfailed h, nofun⟩
      | device => exact .inr (.inl ⟨by simp only [write, hr], hstatus⟩)
      | file old x =>
        have hleads : (mk t cwd).LeadsTo p loc := ⟨_, hfollow⟩
        have h : (mk t cwd).write p content = .ok ⟨t.put loc (.file content x), cwd⟩ := by
          simp only [write, hr]
          rfl
        exact .inr (.inr (.inl ⟨_, loc, old, x, h, hleads, hleads.layout (.put_file hnode), hnode,
          .file hnode⟩))

end FileSystem

end Groom
