import InkPreview.Export.Save
import InkPreview.Proofs.Files.Clean
import InkPreview.Proofs.Files.Reach
/-!
Saving an export is all or nothing. A save that succeeds leaves one file with the content at the place that the target
names, and everything else as it was but for new directories; one that fails leaves directories at most. Main
statements: `save_ok`, `save_error`, `save_atomic`.
-/
namespace InkPreview.Export

open Files (Path Tree Place)

/-- The second tree is the first with a file at the place that the path names, in directories that may be new. A file
or a link that was there is replaced. -/
def Saved (t t' : Tree) (path : String) (content : List UInt8) : Prop :=
  ∃ furnished place, t.Furnished furnished ∧ furnished.Names path place ∧
    ∀ p, t'.at? p = if p = place then some (.file content 0o600) else furnished.at? p

variable {d : Disk} {t t' : Tree} {target saved : Path} {content filename destination shown path : String}
  {bytes : List UInt8}
  {e : FileFault} {scratch : Place}

namespace Saved

/-- No directory was at the place of the file, and no other regular file is different. -/
theorem files (h : Saved t t' path bytes) : ∃ place, t'.at? place = some (.file bytes 0o600) ∧
    t.at? place ≠ some .directory ∧ ∀ p, p ≠ place → ∀ content mode,
      (t'.at? p = some (.file content mode) ↔ t.at? p = some (.file content mode)) := by
  obtain ⟨furnished, place, furnishing, names, after⟩ := h
  refine ⟨place, by rw [after, if_pos rfl], fun directory => ?_, fun p other content mode => ?_⟩
  · rcases furnishing.places place with same | ⟨free, -⟩
    · exact names.vacant.2 (same.trans directory)
    · rw [free] at directory
      cases directory
  · rw [after, if_neg other]
    exact furnishing.files p content mode

end Saved

/-! ### The stages -/

theorem check_error {s : Stage} (h : d.check s = .error e) : e ≠ .nullByte := by
  unfold Disk.check at h
  split at h <;> cases h
  exact nofun

theorem prepare_furnished (d : Disk) (destination : String) : d.tree.Furnished (prepare d destination).1 := by
  unfold prepare
  dsimp only
  split
  · split
    · exact .refl d.tree
    · exact Tree.makeDirectories_furnished d.tree _ _
  · exact .refl d.tree

theorem prepare_error (clean : Tree.hasNull destination = false) (h : (prepare d destination).2 = .error e) :
    e ≠ .nullByte := by
  unfold prepare at h
  dsimp only at h
  split at h
  · split at h
    · rename_i refused
      cases h
      exact check_error refused
    · exact Tree.makeDirectories_error (Path.IsClean.ofText clean) h
  · cases h

theorem targetOf_clean (clean : Tree.hasNull destination = false) (named : Tree.hasNull filename = false)
    (h : targetOf t destination filename = .ok target) : target.IsClean := by
  have destination := Path.IsClean.ofText clean
  unfold targetOf at h
  dsimp only at h
  split at h
  · cases h
  · cases h
    exact destination.join named
  · cases h
    exact destination

theorem targetOf_error (h : targetOf t destination filename = .error e) : e ≠ .nullByte := by
  unfold targetOf at h
  dsimp only at h
  split at h <;> cases h
  exact Tree.isDirectory_error ‹_›

/-- The second tree is the first with the file at the place that the path names; the path ends in a name. -/
structure Placed (t t' : Tree) (path : String) (content : List UInt8) (place : Place) : Prop where
  names : t.Names path place
  clean : Tree.hasNull path = false
  last : (Path.namesOf path).getLast? ≠ some ""
  eq : t' = t.put place (.file content 0o600)

theorem Placed.at? {place : Place} (h : Placed t t' path bytes place) (p : Place) :
    t'.at? p = if p = place then some (.file bytes 0o600) else t.at? p := by
  rw [h.eq, t.at?_put h.names.vacant.1]

/-- The new file, which was made where nothing was, ends at the place that the target names. -/
theorem fillAndMove_ok (free : t.at? scratch = none) (below : scratch ≠ [])
    (h : fillAndMove d (t.put scratch (.file [] 0o600)) scratch shown target bytes = .ok t') :
    ∃ place, Placed t t' target.text bytes place := by
  unfold fillAndMove at h
  dsimp only [bind, Except.bind] at h
  split at h
  · cases h
  split at h
  · cases h
  rw [Tree.put_put] at h
  obtain ⟨clean, last⟩ := Tree.moveFile_named h
  obtain ⟨place, moved, names, there, rfl⟩ := Tree.moveFile_ok h
  rw [t.at?_put below, if_pos rfl] at there
  cases there
  refine ⟨place, names.of_put_file free below, clean, last, ?_⟩
  rw [Tree.remove_put, Tree.remove_of_free free]

theorem fillAndMove_error {place : Place} (clean : target.IsClean)
    (h : fillAndMove d t place shown target bytes = .error e) : e ≠ .nullByte := by
  unfold fillAndMove at h
  dsimp only [bind, Except.bind] at h
  split at h
  · rename_i refused
    cases h
    exact check_error refused
  split at h
  · rename_i refused
    cases h
    exact check_error refused
  · exact Tree.moveFile_error clean.text h

theorem write_ok (h : write d t target bytes = (t', .ok saved)) :
    saved = target ∧ ∃ place, Placed t t' target.text bytes place := by
  unfold write at h
  dsimp only at h
  split at h
  · cases h
  · cases h
  · rename_i created
    obtain ⟨below, free, rfl⟩ := Tree.createFile_ok created
    split at h
    · rename_i moved
      cases h
      exact ⟨rfl, fillAndMove_ok free below moved⟩
    · cases h

/-- What was made before the failure is gone. -/
theorem write_error (h : write d t target bytes = (t', .error e)) : t' = t := by
  unfold write at h
  dsimp only at h
  split at h
  · cases h
    rfl
  · cases h
    rfl
  · rename_i created
    obtain ⟨below, free, rfl⟩ := Tree.createFile_ok created
    split at h
    · cases h
    · cases h
      rw [Tree.remove_put, Tree.remove_of_free free]

/-- The path of the new file, as it is written in messages. -/
theorem shown_clean (placed : t.IsPlaced) (clean : target.IsClean) :
    let shown := (t.absolute target.parent).2
    Tree.hasNull (if shown.endsWith "/" then shown ++ scratchName target.name
      else shown ++ "/" ++ scratchName target.name) = false := by
  have scratch : Tree.hasNull (scratchName target.name) = false := by
    simp [scratchName, clean.name, show Tree.hasNull "." = false from rfl,
      show Tree.hasNull ".XXXXXXXX" = false by decide]
  have above := placed.absolute clean.parent
  dsimp only
  split
  · simp [above, scratch]
  · simp [above, scratch, show Tree.hasNull "/" = false from rfl]

theorem write_no_null (placed : t.IsPlaced) (clean : target.IsClean) (h : (write d t target bytes).2 = .error e) :
    e ≠ .nullByte := by
  unfold write at h
  dsimp only at h
  split at h
  · rename_i refused
    cases h
    exact check_error refused
  · rename_i refused _
    cases h
    exact Tree.createFile_error (shown_clean placed clean) refused
  · split at h
    · cases h
    · cases h
      exact fillAndMove_error clean ‹_›

/-! ### The whole -/

theorem save_ok (h : save d content filename destination = (t, .ok target)) :
    Saved d.tree t target.text (Text.Utf8.encode content.toList) := by
  have furnished := prepare_furnished d destination
  unfold save at h
  split at h
  · cases h
  · rename_i t₁ prepared
    rw [prepared] at furnished
    split at h
    · cases h
    · obtain ⟨rfl, place, placed⟩ := write_ok h
      exact ⟨t₁, place, furnished, placed.names, placed.at?⟩

/-- A save that fails changes no file, and leaves none. -/
theorem save_error (h : save d content filename destination = (t, .error e)) : d.tree.Furnished t := by
  have furnished := prepare_furnished d destination
  unfold save at h
  split at h
  · rename_i t₁ e₁ prepared
    rw [prepared] at furnished
    cases h
    exact furnished
  · rename_i t₁ prepared
    rw [prepared] at furnished
    split at h
    · cases h
      exact furnished
    · rw [write_error h]
      exact furnished

theorem save_no_null (placed : d.tree.IsPlaced) (clean : Tree.hasNull destination = false)
    (named : Tree.hasNull filename = false) (h : save d content filename destination = (t, .error e)) :
    e ≠ .nullByte := by
  have furnished := prepare_furnished d destination
  unfold save at h
  split at h
  · rename_i prepared
    cases h
    exact prepare_error clean (congrArg Prod.snd prepared)
  · rename_i t₁ prepared
    rw [prepared] at furnished
    split at h
    · rename_i refused
      cases h
      exact targetOf_error refused
    · rename_i aimed
      exact write_no_null (furnished.placed placed) (targetOf_clean clean named aimed) (congrArg Prod.snd h)

/-! ### Where the content goes -/

/-- The destination is a directory: its text says so, or it leads to one. -/
def AsksDirectory (t : Tree) (destination : String) : Prop :=
  isSlashed destination = true ∨ t.isDirectory (Path.ofText destination).text = .ok true

/-- A directory that the destination asks for is there once it has been made. -/
theorem prepare_directory (h : prepare d destination = (t, .ok ())) :
    t.isDirectory (Path.ofText destination).text = .ok true ↔ AsksDirectory d.tree destination := by
  unfold prepare at h
  dsimp only at h
  split at h
  · rename_i slashed
    split at h
    · cases h
    · have made := Tree.makeDirectories_made h
      exact ⟨fun _ => .inl slashed, fun _ => made⟩
  · rename_i plain
    cases h
    exact ⟨.inr, fun asks => asks.resolve_left plain⟩

theorem targetOf_ok (h : targetOf t destination filename = .ok target) :
    (t.isDirectory (Path.ofText destination).text = .ok true → target = (Path.ofText destination).join filename) ∧
    (t.isDirectory (Path.ofText destination).text ≠ .ok true → target = Path.ofText destination) := by
  unfold targetOf at h
  dsimp only at h
  split at h
  · cases h
  · rename_i there
    cases h
    exact ⟨fun _ => rfl, fun none => absurd there none⟩
  · rename_i none
    cases h
    exact ⟨fun there => by simp [none] at there, fun _ => rfl⟩

/-- Whatever fails, and whatever there is already: a save that fails leaves every file and link as
it was and nothing new but directories. One that succeeds has its target under the destination if
that is a directory, and at the destination otherwise; a file with the content stands at the place
that the target names, and everything else is as it was but for new directories. The target leads to
that file, unless it passes through what was there, which then was a link. -/
theorem save_atomic (d : Disk) (content filename destination : String) :
    match save d content filename destination with
    | (t, .error _) => d.tree.Furnished t
    | (t, .ok target) =>
      (AsksDirectory d.tree destination → target = (Path.ofText destination).join filename) ∧
      (¬ AsksDirectory d.tree destination → target = Path.ofText destination) ∧
      ∃ furnished place, d.tree.Furnished furnished ∧ furnished.Names target.text place ∧
        (∀ p, t.at? p = if p = place then some (.file (Text.Utf8.encode content.toList) 0o600) else furnished.at? p) ∧
        (¬ furnished.Passes target.text place → t.readBytes target.text = .ok (Text.Utf8.encode content.toList)) ∧
        (furnished.Passes target.text place → ∃ link, furnished.at? place = some (.link link)) := by
  obtain ⟨t, e | target, saved⟩ : ∃ t r, save d content filename destination = (t, r) := ⟨_, _, rfl⟩
  · rw [saved]
    exact save_error saved
  · rw [saved]
    dsimp only
    have furnished := prepare_furnished d destination
    unfold save at saved
    split at saved
    · cases saved
    · rename_i t₁ prepared
      rw [prepared] at furnished
      have directory := prepare_directory prepared
      split at saved
      · cases saved
      · rename_i aimed
        obtain ⟨under, at_it⟩ := targetOf_ok aimed
        obtain ⟨rfl, place, placed⟩ := write_ok saved
        refine ⟨fun asks => under (directory.2 asks), fun plain => at_it (mt directory.1 plain), t₁, place, furnished,
          placed.names, placed.at?, fun through => ?_, fun passes => ?_⟩
        · rw [placed.eq]
          exact Tree.readBytes_put placed.names through placed.clean placed.last
        · by_contra none
          exact placed.names.not_passes (fun link there => none ⟨link, there⟩) passes

/-- Nothing but the current directory. -/
def bare : Tree := .new ["here"] "here"

theorem bare_linkless (p : Place) (link : String) : bare.at? p ≠ some (.link link) := by
  intro there
  unfold Tree.at? at there
  split at there
  · cases there
  · obtain ⟨before, after, split, -⟩ := List.lookup_eq_some_iff.1 there
    have mem : (p, Files.Entry.link link) ∈ bare.entries := by simp [split]
    simp [bare, Tree.new] at mem

/-- A save makes the directory that it is asked for, and its target leads to the content. -/
theorem bare_saved : ∃ t, save (.sound bare) "x\r\n" "Story.ink" "out/" = (t, .ok ⟨"", ["out", "Story.ink"]⟩) ∧
    t.readBytes "out/Story.ink" = .ok [120, 13, 10] := by
  have target : (save (.sound bare) "x\r\n" "Story.ink" "out/").2 = .ok ⟨"", ["out", "Story.ink"]⟩ := by decide +kernel
  have saved := save_atomic (.sound bare) "x\r\n" "Story.ink" "out/"
  generalize save (.sound bare) "x\r\n" "Story.ink" "out/" = r at target saved
  obtain ⟨t, _ | _⟩ := r
  · cases target
  · obtain rfl := Except.ok.inj target
    obtain ⟨-, -, furnished, place, furnishing, -, -, holds, linked⟩ := saved
    refine ⟨t, rfl, holds fun passes => ?_⟩
    obtain ⟨link, there⟩ := linked passes
    rcases furnishing.places place with same | ⟨-, made⟩
    · exact bare_linkless place link (same.symm.trans there)
    · rw [made] at there
      cases there

/-- The current directory, with a link to itself that has the name of an export. -/
def looped : Tree := bare.put ["here", "Story.ink"] (.link ".")

/-- A save under the link takes the link's place, so its target leads nowhere any more. -/
theorem looped_lost : (save (.sound looped) "x" "Story.ink" "Story.ink").2 = .ok ⟨"", ["Story.ink", "Story.ink"]⟩ ∧
    (save (.sound looped) "x" "Story.ink" "Story.ink").1.readBytes "Story.ink/Story.ink" =
      .error (.os .notDirectory "Story.ink/Story.ink") := by
  decide +kernel

end InkPreview.Export
