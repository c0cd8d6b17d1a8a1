import Groom.Formatting
import Groom.Proofs.Operation
import Groom.Proofs.Layout

/-! Formatting one file of a tree without links, with tools that change at most the bytes of the
file they are run on. What such a tool leaves is compared with what was there before, and a file
that was changed gets its line. -/
namespace Groom

variable {σ : Type}

theorem Utf8.join_go (stretch : List Char) (units : List (Option Char)) :
    String.join (pieces.go stretch units) =
      String.ofList (stretch.reverse ++ units.map (·.getD replacement)) := by
  induction units generalizing stretch with
  | nil => simp [pieces.go]
  | cons unit rest ih =>
    cases unit with
    | some c => simp [pieces.go, ih]
    | none => simp [pieces.go, ih, String.join_cons, String.ofList_append, String.ofList_cons]

/-- The pieces in which a text is shown make up the text. -/
theorem Utf8.join_pieces (bs : Bytes) : String.join (pieces bs) = lossy bs :=
  join_go [] (units bs)

def Event.captured? : Event → Option Path
  | .captured path _ => some path
  | _ => none

/-- The files that were captured, in order. -/
def captures (events : List Event) : List Path := events.filterMap Event.captured?

@[simp] theorem captures_append (xs ys : List Event) :
    captures (xs ++ ys) = captures xs ++ captures ys :=
  List.filterMap_append ..

@[simp] theorem captures_deeds (events : List Event) :
    captures (deeds events) = captures events := by
  have htalk : ∀ e : Event, e.isTalk = true → e.captured? = none := by
    intro e he
    cases e <;> first | rfl | cases he
  exact filterMap_deeds htalk events

theorem captures_nil : captures [] = [] := rfl

theorem captures_map_wrote (pieces : List String) : captures (pieces.map .wrote) = [] := by
  simp [captures, Event.captured?]

namespace FileSystem

variable {p : Path} {loc : Location}

def bytes? (fs : FileSystem) (p : Path) : Option Bytes := (fs.read p).toOption

def differs (before after : FileSystem) (p : Path) : Bool := after.bytes? p ≠ before.bytes? p

theorem bytes?_of_isFile {fs : FileSystem} (hf : fs.isFile p = true) (h : fs.LeadsTo p loc) :
    fs.bytes? p = fs.tree.content? loc := by
  obtain ⟨loc', content, h', hc⟩ := isFile_iff.mp hf
  obtain rfl := h.unique h'
  rw [bytes?, read_of_leadsTo h hc, hc]
  rfl

end FileSystem

/-- A change of a tree in which at most the bytes of the file to which a path leads are changed: no
entry is created, removed or renamed. -/
structure Rewrites (cwd : Working) (file : Path) (t t' : Tree) : Prop where
  shape : t.SameShape t'
  others : ∀ loc, ¬(FileSystem.mk t cwd).LeadsTo file loc → t'.content? loc = t.content? loc

namespace Rewrites

variable {cwd : Working} {file : Path} {t t' t'' : Tree}

theorem refl (cwd : Working) (file : Path) (t : Tree) : Rewrites cwd file t t :=
  ⟨.refl t, fun _ _ => rfl⟩

theorem trans (hl : t.Linkless) (h : Rewrites cwd file t t') (h' : Rewrites cwd file t' t'') :
    Rewrites cwd file t t'' := by
  refine ⟨h.shape.trans h'.shape, fun loc hloc => ?_⟩
  have hloc' : ¬(FileSystem.mk t' cwd).LeadsTo file loc := fun hleads =>
    hloc (hleads.shape h.shape.symm (h.shape.linkless hl))
  exact (h'.others loc hloc').trans (h.others loc hloc)

theorem put_file {loc : Location} {content new : Bytes} {x x' : Bool}
    (hleads : (FileSystem.mk t cwd).LeadsTo file loc) (h : t.node? loc = some (.file content x)) :
    Rewrites cwd file t (t.put loc (.file new x')) := by
  refine ⟨.put_file h, fun loc' hloc' => Tree.content?_put_file h ?_⟩
  rintro rfl
  exact hloc' hleads

end Rewrites

namespace Formatting

/-- Every call that the passes on a file make, one after the other and as long as they succeed,
changes at most the bytes of that file. -/
def Careful (s : Setting σ) (file : Path) : List Tool → σ → Tree → Prop
  | [], _, _ => True
  | pass :: rest, state, tree =>
    let reply := s.runner (pass.workRequest file) state tree
    Rewrites s.cwd file tree reply.tree ∧
      (reply.answer = .ok .success → Careful s file rest reply.state reply.tree)

/-- Tools that change at most the bytes of the file they are run on, whatever the tree is, are
careful. -/
theorem careful_of_rewrites {s : Setting σ} {file : Path} {passes : List Tool}
    (h : ∀ pass ∈ passes, ∀ state tree,
      Rewrites s.cwd file tree (s.runner (pass.workRequest file) state tree).tree)
    (state : σ) (tree : Tree) : Careful s file passes state tree := by
  induction passes generalizing state tree with
  | nil => trivial
  | cons pass rest ih =>
    obtain ⟨hfirst, hrest⟩ := List.forall_mem_cons.mp h
    exact ⟨hfirst state tree, fun _ => ih hrest _ _⟩

def announcement (path : Path) : String := "Formatted: " ++ path.display ++ "\n"

theorem announcement_ne_empty (path : Path) : announcement path ≠ "" := by
  simp [announcement]

theorem join_filter_ne_empty (pieces : List String) :
    String.join (pieces.filter (· ≠ "")) = String.join pieces := by
  induction pieces with
  | nil => rfl
  | cons piece rest ih => by_cases h : piece = "" <;> simpa [h, String.join_cons] using ih

theorem join_line (path : Path) : String.join (Run.linePieces (line path)) = announcement path := by
  rw [Run.linePieces, join_filter_ne_empty]
  simp [line, announcement, Path.displayPieces, Path.display, Utf8.join_pieces, String.join_cons,
    String.join_append, String.append_assoc]

variable {s : Setting σ} {file : Path} {passes : List Tool} {w : World σ}

/-- The passes only make calls, and these change at most the bytes of the file. -/
theorem passes_meets (hl : w.tree.Linkless) (hcareful : Careful s file passes w.runner w.tree) :
    (passes.forM fun pass => pass.invokeChecked s file).Meets w fun ds _ w' =>
      text ds = "" ∧ captures ds = [] ∧ Rewrites s.cwd file w.tree w'.tree := by
  induction passes generalizing w with
  | nil => exact .pure ⟨rfl, rfl, .refl s.cwd file w.tree⟩
  | cons pass rest ih =>
    obtain ⟨hfirst, hrest⟩ := hcareful
    rw [Run.forM_cons]
    refine (pass.invokeChecked_meets s file w _ rfl).bind ?_ ?_
    · intro ds _ w₁ hmeets
      obtain ⟨rfl, hverdict, ht, hr⟩ := hmeets
      have hcareful' := hrest (Tool.workVerdict_eq_ok.mp hverdict.symm)
      rw [← ht] at hfirst
      rw [← ht, ← hr] at hcareful'
      -- the next pass finds the tree that this one left, and it has no links either
      refine (ih (hfirst.shape.linkless hl) hcareful').mono ?_
      intro ds r w₂ hmeets
      obtain ⟨htext, hcaptures, hrewrites⟩ := hmeets
      refine ⟨?_, ?_, hfirst.trans hl hrewrites⟩
      · rw [text_append, htext]
        rfl
      · rw [captures_append, hcaptures]
        rfl
    · intro ds e w₁ hmeets
      obtain ⟨rfl, -, ht, -⟩ := hmeets
      exact ⟨rfl, rfl, ht ▸ hfirst⟩

theorem capture_file_meets (hfile : (FileSystem.mk w.tree s.cwd).isFile file = true) :
    (Run.capture s file).Meets w fun ds r w' => text ds = "" ∧ captures ds = [file] ∧ w.Still w' ∧
      ∃ content, r = .ok content ∧ (FileSystem.mk w.tree s.cwd).bytes? file = some content := by
  obtain ⟨loc, content, hleads, hcontent⟩ := FileSystem.isFile_iff.mp hfile
  have hread := FileSystem.read_of_leadsTo hleads hcontent
  refine (Run.capture_meets s file w).mono ?_
  intro ds r w' hmeets
  obtain ⟨rfl, rfl, hs⟩ := hmeets
  rw [FileSystem.bytes?, hread]
  exact ⟨rfl, rfl, hs, content, rfl, rfl⟩

/-- A file is captured before and after the passes, and its outcome says whether its bytes are
others than before. -/
theorem processOne_meets (hl : w.tree.Linkless)
    (hfile : (FileSystem.mk w.tree s.cwd).isFile file = true)
    (hcareful : Careful s file passes w.runner w.tree) :
    (processOne s passes file).Meets w fun ds r w' =>
      text ds = "" ∧ (∃ front, captures ds = front ++ [file]) ∧
      Rewrites s.cwd file w.tree w'.tree ∧
      ∀ o, r = .ok o → o.path = (FileSystem.mk w'.tree s.cwd).absolute file ∧
        (o.change = .changed ↔
          (FileSystem.mk w.tree s.cwd).differs ⟨w'.tree, s.cwd⟩ file = true) := by
  refine (capture_file_meets hfile).bind ?_ ?_
  · intro ds before w₁ hmeets
    obtain ⟨htext₁, hcaptures₁, ⟨ht₁, hr₁⟩, _, hbefore, hbytes⟩ := hmeets
    cases hbefore
    rw [← ht₁, ← hr₁] at hcareful
    refine (passes_meets (ht₁ ▸ hl) hcareful).bind ?_ ?_
    · intro ds' _ w₂ hmeets
      obtain ⟨htext₂, hcaptures₂, hrewrites⟩ := hmeets
      rw [ht₁] at hrewrites
      -- the passes leave a file where it was, so it can be captured again
      have hfile' : (FileSystem.mk w₂.tree s.cwd).isFile file = true := by
        rw [FileSystem.isFile_shape hrewrites.shape hl, hfile]
      refine (capture_file_meets hfile').bind ?_ ?_
      · intro ds'' after w₃ hmeets
        obtain ⟨htext₃, hcaptures₃, ⟨ht₃, -⟩, _, hafter, hbytes'⟩ := hmeets
        cases hafter
        refine Run.log_bind_meets fun w₄ hs => Run.files_bind_meets (.pure ?_)
        have ht₄ : w₄.tree = w₂.tree := hs.1.trans ht₃
        refine ⟨?_, ?_, ht₄ ▸ hrewrites, ?_⟩
        · simp [htext₁, htext₂, htext₃]
        · exact ⟨[file], by simp [hcaptures₁, hcaptures₂, hcaptures₃]⟩
        · intro o ho
          cases ho
          refine ⟨rfl, ?_⟩
          simp only [FileSystem.differs, ht₄, hbytes, hbytes']
          by_cases heq : before = after <;> simp [heq, eq_comm]
      · intro ds'' e w₃ hmeets
        obtain ⟨-, -, -, _, hafter, -⟩ := hmeets
        cases hafter
    · intro ds' e w₂ hmeets
      obtain ⟨htext₂, hcaptures₂, hrewrites⟩ := hmeets
      refine ⟨?_, ⟨[], ?_⟩, ht₁ ▸ hrewrites, nofun⟩
      · simp [htext₁, htext₂]
      · simp [hcaptures₁, hcaptures₂]
  · intro ds e w₁ hmeets
    obtain ⟨-, -, -, _, hbefore, -⟩ := hmeets
    cases hbefore

/-- A file that was changed gets its line, unless a piece of it is refused; one that was not changed
gets none. -/
theorem record_meets (s : Setting σ) (r : FormatReport) (o : FileOutcome) (w : World σ) :
    (record s r o).Meets w fun ds out w' => w.Still w' ∧ captures ds = [] ∧ match out with
      | .ok r' => r' = r.add o ∧ text ds = if o.change = .changed then announcement o.path else ""
      | .error _ => ∃ missing, missing ≠ "" ∧ announcement o.path = text ds ++ missing := by
  unfold record
  split
  · rename_i hchanged
    refine (Run.writeLine_meets s (line o.path) w).bind ?_ ?_
    · intro ds _ w' hmeets
      obtain ⟨hs, ⟨rfl, -⟩ | ⟨_, _, _, _, -, -, -, hr⟩⟩ := hmeets
      · refine .pure ⟨hs, ?_, rfl, ?_⟩
        · simp [captures_map_wrote]
        · simp [join_line]
      · cases hr
    · intro ds e w' hmeets
      obtain ⟨hs, ⟨-, hr, -⟩ | ⟨taken, piece, left, refusal, hpieces, -, rfl, -⟩⟩ := hmeets
      · cases hr
      · refine ⟨hs, ?_, refusal.rest ++ String.join left, ?_, ?_⟩
        · rw [captures_append, captures_map_wrote]
          rfl
        · simp [refusal.lacking]
        · have hpiece : piece ++ String.join left =
              refusal.part ++ (refusal.rest ++ String.join left) := by
            rw [← String.append_assoc, ← refusal.split]
          calc announcement o.path
              = String.join (taken ++ piece :: left) := by rw [← join_line, hpieces]
            _ = String.join taken ++ (piece ++ String.join left) := by
              rw [String.join_append, String.join_cons]
            _ = String.join taken ++ refusal.part ++ (refusal.rest ++ String.join left) := by
              rw [hpiece, String.append_assoc]
            _ = text (taken.map .wrote ++ [.refused refusal.part refusal.cause]) ++
                (refusal.rest ++ String.join left) := by rw [text_refused]
  · exact .pure ⟨.refl w, rfl, rfl, rfl⟩

end Formatting

end Groom
