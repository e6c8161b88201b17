import InkPreview.Command.Run
import InkPreview.Proofs.Export.Save
import InkPreview.Proofs.Live.Errand
import InkPreview.Proofs.Text.Utf8
/-!
The export command, from its arguments to the files it leaves. A run that ends well has saved the export under the
path that it prints and changed no other file; a run that ends in a refusal has changed no file and shows why; any
other run ends in a fault, for one of a few reasons, and has changed no file unless only the last line cannot be shown.
A source that is exported as it is comes out with its line ends made one. Main statements: `run_ends`, `run_source`.
-/
namespace InkPreview

/-- What of something shown is read for its markup. -/
def Shown.markedUp : Shown → String
  | .text .. => ""
  | .panel title .. => title
  | .markup line => line

/-- A terminal can show whatever has no bracket where it looks for markup. -/
def Console.Terminal.ShowsPlain (terminal : Console.Terminal) : Prop :=
  ∀ shown f, terminal.refusal shown = some f → '[' ∈ shown.markedUp.toList

namespace Command

open Files (Path Tree)
open Export (Saved)

/-- How a run has finished, as its report says. -/
def Report.finish (r : Report) : Finish := ⟨r.printed, r.tree, r.ending⟩

namespace Machine

/-- What an export of the source comes to in time. -/
def answer (m : Machine) (a : Arguments) (kind : ExportKind) (runtime : Page.LocalRuntime) (source : String) :
    Live.Signal :=
  Live.exportAnswer (Page.runtimeTag runtime none).1 source kind (some a.source.stem) (m.finder a).answer (m.child source)

/-- What the export that was asked for hands over. -/
def Yields (m : Machine) (a : Arguments) (e : Exported) : Prop :=
  ∃ source kind runtime, m.disk.tree.readText a.source.text = .ok source ∧ a.kind = .value kind ∧
    Page.LocalRuntime.find m.disk.tree m.configuration.runtime = .ok runtime ∧
    m.answer a kind runtime source = .value (.exported e)

/-- The export is in a file at the path that is printed last, and no other file is different. -/
def Delivers (m : Machine) (e : Exported) (o : Finish) : Prop :=
  ∃ (target : Path) (before : List Shown), o.ending = .status 0 ∧ o.printed = before ++ [saved target] ∧
    Saved m.disk.tree o.tree target.text (Text.Utf8.encode e.content.toList)

/-- The export is in a file, and no other file is different, but the line with its path cannot be shown. -/
def Conceals (m : Machine) (e : Exported) (o : Finish) : Prop :=
  ∃ (target : Path) (f : Fault), o.ending = .fault f ∧ m.terminal.refusal (saved target) = some f ∧
    Saved m.disk.tree o.tree target.text (Text.Utf8.encode e.content.toList)

/-- The export that was asked for is delivered. -/
def Completes (m : Machine) (a : Arguments) (o : Finish) : Prop := ∃ e, m.Yields a e ∧ m.Delivers e o

/-- The export that was asked for is saved, but that is not shown. -/
def Misses (m : Machine) (a : Arguments) (o : Finish) : Prop := ∃ e, m.Yields a e ∧ m.Conceals e o

/-- No file is different, and what went wrong is shown. -/
def Refuses (m : Machine) (o : Finish) : Prop :=
  o.ending = .status 1 ∧ m.disk.tree.Furnished o.tree ∧ ∃ title align body, .panel title align "red" body ∈ o.printed

/-- The reasons for a run to end in a fault before anything is saved. -/
inductive Raises (m : Machine) (a : Arguments) : Fault → Prop
  /-- Asking about the story runtime or about a compiler is refused. -/
  | runtime {f : FileFault} (refused : Page.LocalRuntime.find m.disk.tree m.configuration.runtime = .error f) :
      Raises m a (.file f)
  | search {f : Fault} (compiles : a.kind ≠ .value .source) (refused : (m.finder a).answer = .error f) : Raises m a f
  /-- An option was given two dashes for its value. -/
  | kind (given : a.kind = .nothing) : Raises m a .kindNotGiven
  | output (given : a.output = .nothing) : Raises m a .outputNotGiven
  /-- The source is not written, or the compiler not started on it, and it is not the system that refuses. -/
  | setup {source name message : String} (compiles : a.kind ≠ .value .source)
      (read : m.disk.tree.readText a.source.text = .ok source)
      (fault : (m.child source).writeFault = some (.crashed name message) ∨
        (m.child source).writeFault = none ∧ (m.child source).startFault = some (.crashed name message)) :
      Raises m a (.setup name message)
  /-- The compiled story is nested too deep to be summed up. -/
  | nested {story : String} {f : Json.Fault} (asked : a.preview = true) (comes : m.Yields a ⟨.compiled, story⟩)
      (deep : Console.summary story = .error f) : Raises m a (.json f)
  /-- The terminal cannot show the summary. -/
  | panel {story : String} {shown : Shown} {f : Fault} (asked : a.preview = true)
      (comes : m.Yields a ⟨.compiled, story⟩)
      (sums : Console.show? m.terminal (.compiled story) a.source.name = .ok shown)
      (refused : m.terminal.refusal shown = some f) : Raises m a f

/-- The run ends in a fault for one of these reasons. -/
def Breaks (m : Machine) (a : Arguments) (o : Finish) : Prop :=
  ∃ f, o.ending = .fault f ∧ o.tree = m.disk.tree ∧ m.Raises a f

variable {m : Machine} {a : Arguments} {e : Exported} {output source message : String} {shown : List Shown} {f : Fault}
  {kind : ExportKind} {runtime : Page.LocalRuntime} {r : Live.Result} {failure : Failure}

theorem breaks_fault (raises : m.Raises a f) : m.Breaks a (m.fault f) := ⟨f, rfl, rfl, raises⟩

/-! ### What is shown last -/

theorem showLast_shown {last : Shown} {tree : Tree} {status : Nat} (fine : m.terminal.refusal last = none) :
    m.showLast shown last tree status = ⟨shown ++ [last], tree, .status status⟩ := by
  simp only [showLast, fine]

/-- A panel with a title that has no bracket is shown. -/
theorem showLast_panel (fair : m.terminal.ShowsPlain) {title align body : String}
    (plain : '[' ∉ title.toList) {tree : Tree}
    {status : Nat} : m.showLast shown (.panel title align "red" body) tree status =
      ⟨shown ++ [.panel title align "red" body], tree, .status status⟩ := by
  refine showLast_shown (Option.eq_none_iff_forall_not_mem.2 fun f refused => ?_)
  exact plain (fair _ f refused)

theorem refuses_panel (fair : m.terminal.ShowsPlain) {title align body : String}
    (plain : '[' ∉ title.toList) {tree : Tree}
    (same : m.disk.tree.Furnished tree) : m.Refuses (m.showLast shown (.panel title align "red" body) tree 1) := by
  rw [showLast_panel fair plain]
  exact ⟨rfl, same, title, align, body, List.mem_append_right _ (List.mem_singleton_self _)⟩

/-! ### Saving -/

theorem saveUnder_ends (fair : m.terminal.ShowsPlain) (placed : m.disk.tree.IsPlaced)
    (clean : Tree.hasNull output = false)
    (shown : List Shown) :
    m.Delivers e (m.saveUnder output e shown) ∨ m.Conceals e (m.saveUnder output e shown) ∨
      m.Refuses (m.saveUnder output e shown) := by
  have named : Tree.hasNull e.filename = false := by
    unfold Exported.filename
    cases e.kind <;> decide
  unfold saveUnder
  split
  · rename_i tree target done
    cases fine : m.terminal.refusal (saved target) with
    | none =>
      rw [showLast_shown fine]
      exact .inl ⟨target, shown, rfl, rfl, Export.save_ok done⟩
    | some f =>
      refine .inr (.inl ⟨target, f, ?_, fine, ?_⟩)
      · simp only [showLast, fine]
      · simp only [showLast, fine]
        exact Export.save_ok done
  · rename_i done
    exact absurd rfl (Export.save_no_null placed clean named done)
  · rename_i tree f _ failed
    exact .inr (.inr (refuses_panel fair (by decide) (Export.save_error failed)))

/-- What saving an export may come to. -/
theorem save_ends (fair : m.terminal.ShowsPlain) (placed : m.disk.tree.IsPlaced)
    (clean : ∀ s, a.output = .value s → Tree.hasNull s = false) (shown : List Shown) :
    m.Delivers e (m.save a e shown) ∨ m.Conceals e (m.save a e shown) ∨ m.Refuses (m.save a e shown) ∨
      m.Breaks a (m.save a e shown) := by
  unfold save
  cases given : a.output with
  | value output => exact (saveUnder_ends fair placed (clean output given) shown).imp id (Or.imp id .inl)
  | nothing => exact .inr (.inr (.inr ⟨.outputNotGiven, rfl, rfl, .output given⟩))

theorem summary_error {story title : String} {f : Json.Fault}
    (h : Console.show? m.terminal (.compiled story) title = .error f) : Console.summary story = .error f := by
  replace h : (Console.summary story).map _ = .error f := h
  cases summed : Console.summary story with
  | ok s =>
    rw [summed] at h
    cases h
  | error f' =>
    rw [summed] at h
    cases h
    rfl

theorem conclude_ends (fair : m.terminal.ShowsPlain) (placed : m.disk.tree.IsPlaced)
    (clean : ∀ s, a.output = .value s → Tree.hasNull s = false) (comes : m.Yields a e) :
    m.Delivers e (m.conclude a e) ∨ m.Conceals e (m.conclude a e) ∨ m.Refuses (m.conclude a e) ∨
      m.Breaks a (m.conclude a e) := by
  unfold conclude
  split
  · rename_i asked
    simp only [Bool.and_eq_true, decide_eq_true_eq] at asked
    have story : m.Yields a ⟨.compiled, e.content⟩ := asked.2 ▸ comes
    cases sums : Console.show? m.terminal (.compiled e.content) a.source.name with
    | ok shown =>
      dsimp only
      split
      · exact save_ends fair placed clean [shown]
      · rename_i f refused
        exact .inr (.inr (.inr (breaks_fault (.panel asked.1 story sums refused))))
    | error f => exact .inr (.inr (.inr (breaks_fault (.nested asked.1 story (summary_error sums)))))
  · exact save_ends fair placed clean []

/-! ### The export -/

theorem settle_failed (fair : m.terminal.ShowsPlain) (failure : Failure) (message : String) :
    m.Refuses (m.settle a (some (.fault (.exportFailed failure message)))) :=
  show m.Refuses (m.showLast [] (.panel "Compilation Failed" "left" "red" (m.terminal.visible message)) m.disk.tree 1) from
    refuses_panel fair (by decide) (.refl m.disk.tree)

theorem exportAnswer_ends (tag text : String) (kind : ExportKind) (title : Option String)
    (found : Except Fault (Option String)) (c : Child) :
    (∃ e, Live.exportAnswer tag text kind title found c = .value (.exported e)) ∨
      (∃ k message, Live.exportAnswer tag text kind title found c = .fault (.exportFailed k message)) ∨
      ∃ f, kind ≠ .source ∧ Live.exportAnswer tag text kind title found c = .fault f ∧
        Live.compileAnswer found c = .error f := by
  unfold Live.exportAnswer
  rcases Live.compileAnswer found c with f | story | ⟨k, message⟩
  · cases kind with
    | source => exact .inl ⟨_, rfl⟩
    | compiled | web => exact .inr (.inr ⟨f, nofun, rfl, rfl⟩)
  · cases kind with
    | source | compiled | web => exact .inl ⟨_, rfl⟩
  · cases kind with
    | source => exact .inl ⟨_, rfl⟩
    | compiled | web => exact .inr (.inl ⟨k, message, rfl⟩)

theorem compileAnswer_error {found : Except Fault (Option String)} {c : Child}
    (h : Live.compileAnswer found c = .error f) :
    found = .error f ∨ ∃ name message, (c.writeFault = some (.crashed name message) ∨
      c.writeFault = none ∧ c.startFault = some (.crashed name message)) ∧ f = .setup name message := by
  unfold Live.compileAnswer at h
  split at h
  · cases h
    exact .inl rfl
  · cases h
  · split at h
    · cases h
    · rename_i name message crashed
      cases h
      exact .inr ⟨name, message, .inl crashed, rfl⟩
    · cases h
    · rename_i name message written crashed
      cases h
      exact .inr ⟨name, message, .inr ⟨written, crashed⟩, rfl⟩
    · cases h

/-- An export that has ended is saved or refused, or the run ends in its fault. -/
theorem settle_ends (fair : m.terminal.ShowsPlain) (placed : m.disk.tree.IsPlaced)
    (clean : ∀ s, a.output = .value s → Tree.hasNull s = false) (read : m.disk.tree.readText a.source.text = .ok source)
    (asked : a.kind = .value kind) (found : Page.LocalRuntime.find m.disk.tree m.configuration.runtime = .ok runtime)
    (ended : r.signal = m.answer a kind runtime source ∨ ∃ k message, r.signal = .fault (.exportFailed k message)) :
    m.Completes a (m.settle a (some r)) ∨ m.Misses a (m.settle a (some r)) ∨ m.Refuses (m.settle a (some r)) ∨
      m.Breaks a (m.settle a (some r)) := by
  have failed : ∀ k message, r.signal = .fault (.exportFailed k message) → m.Refuses (m.settle a (some r)) := by
    intro k message eq
    cases r with
    | value | cancelled => cases eq
    | fault f =>
      cases eq
      exact settle_failed fair k message
  rcases ended with answered | ⟨k, message, late⟩
  · rcases exportAnswer_ends (Page.runtimeTag runtime none).1 source kind (some a.source.stem) (m.finder a).answer
      (m.child source) with ⟨e, eq⟩ | ⟨k, message, eq⟩ | ⟨f, compiles, eq, lost⟩
    · have comes : m.Yields a e := ⟨source, kind, runtime, read, asked, found, eq⟩
      cases r with
      | fault | cancelled => cases answered.trans eq
      | value v =>
        cases answered.trans eq
        rcases conclude_ends fair placed clean comes with delivered | concealed | others
        · exact .inl ⟨e, comes, delivered⟩
        · exact .inr (.inl ⟨e, comes, concealed⟩)
        · exact .inr (.inr others)
    · exact .inr (.inr (.inl (failed k message (answered.trans eq))))
    · have compiles : a.kind ≠ .value .source := fun source => compiles (Given.value.inj (asked.symm.trans source))
      have raises : m.Raises a f := by
        rcases compileAnswer_error lost with search | ⟨name, message, crashed, rfl⟩
        · exact .search compiles search
        · exact .setup compiles read crashed
      cases r with
      | value | cancelled => cases answered.trans eq
      | fault f' =>
        cases answered.trans eq
        by_cases refused : ∃ k message, f = .exportFailed k message
        · obtain ⟨k, message, rfl⟩ := refused
          exact .inr (.inr (.inl (failed k message rfl)))
        · refine .inr (.inr (.inr ?_))
          have eq : m.settle a (some (.fault f)) = m.fault f := by
            cases f with
            | exportFailed k message => exact absurd ⟨k, message, rfl⟩ refused
            | _ => rfl
          rw [eq]
          exact breaks_fault raises
  · exact .inr (.inr (.inl (failed k message late)))

theorem exportText_ends (fair : m.terminal.ShowsPlain) (placed : m.disk.tree.IsPlaced)
    (clean : ∀ s, a.output = .value s → Tree.hasNull s = false) (read : m.disk.tree.readText a.source.text = .ok source)
    (threshold : Nat) :
    m.Completes a (m.exportText threshold a source).finish ∨ m.Misses a (m.exportText threshold a source).finish ∨
      m.Refuses (m.exportText threshold a source).finish ∨ m.Breaks a (m.exportText threshold a source).finish := by
  unfold exportText
  split
  · rename_i refused
    exact .inr (.inr (.inr (breaks_fault (.runtime refused))))
  · rename_i runtime found
    dsimp only
    cases asked : a.kind with
    | nothing => exact .inr (.inr (.inr (breaks_fault (.kind asked))))
    | value kind =>
      obtain ⟨r, eq, ended⟩ := Live.World.finishOp_exportAs m.setup (m.finder a)
        (Gallery.new (Page.runtimeTag runtime none).1) (Page.runtimeTag runtime none).2 a.source.stem source kind
        (some a.source.stem) (show 20 ≤ exportFuel by decide)
      dsimp only
      rw [eq]
      exact settle_ends fair placed clean read asked found (ended.imp id fun late => ⟨_, _, late.2.2⟩)

theorem readBytes_error {t : Tree} {path : String} {e : FileFault} (clean : Tree.hasNull path = false)
    (h : t.readBytes path = .error e) : e ≠ .nullByte := by
  unfold Tree.readBytes at h
  rw [clean] at h
  simp only [Bool.false_eq_true, if_false] at h
  split at h <;> cases h <;> exact nofun

theorem carryOut_ends (fair : m.terminal.ShowsPlain) (placed : m.disk.tree.IsPlaced) (named : a.source.IsClean)
    (clean : ∀ s, a.output = .value s → Tree.hasNull s = false) (threshold : Nat) :
    m.Completes a (m.carryOut a threshold).finish ∨ m.Misses a (m.carryOut a threshold).finish ∨
      m.Refuses (m.carryOut a threshold).finish ∨ m.Breaks a (m.carryOut a threshold).finish := by
  unfold carryOut
  split
  · rename_i read
    exact exportText_ends fair placed clean read threshold
  · rename_i unread
    unfold Tree.readText at unread
    split at unread
    · rename_i refused
      cases unread
      exact absurd rfl (readBytes_error named.text refused)
    · split at unread <;> cases unread
  · exact .inr (.inr (.inl (refuses_panel fair (by decide) (.refl m.disk.tree))))

/-- Every run with arguments that the command takes, a level that is known and paths without null characters, on a
terminal that shows what has no bracket: it delivers the export that was asked for and changes no other file; or it does
so, but the terminal cannot show the line that says so; or it refuses and changes none; or it ends in a fault for one of
the reasons `Raises` and leaves the files as they are. -/
theorem run_ends {args : List String} {threshold : Nat} (parsed : Arguments.parse args = .ok a)
    (known : Level.threshold (m.levelName a) = .ok threshold) (named : a.source.IsClean)
    (clean : ∀ s, a.output = .value s → Tree.hasNull s = false) (placed : m.disk.tree.IsPlaced)
    (fair : m.terminal.ShowsPlain) :
    m.Completes a (m.run args).finish ∨ m.Misses a (m.run args).finish ∨ m.Refuses (m.run args).finish ∨
      m.Breaks a (m.run args).finish := by
  unfold run
  rw [parsed]
  dsimp only
  rw [known]
  exact carryOut_ends fair placed named clean threshold

/-- A machine with one source, the line end of which has a carriage return in it, and with a compiler that cannot be
started. Its terminal shows everything as it is. -/
def sample : Machine where
  disk := .sound (((Tree.new ["here"] "here").put ["here", "a.ink"] (.file [97, 13, 10, 98] 0o644)).put ["here", "c"]
    (.file [] 0o755))
  child _ := ⟨none, some (.crashed "RuntimeError" "boom"), 0, 0, [], .missing, false, none⟩
  terminal := ⟨id, fun _ => none⟩
  configuration := .standard "package"

/-- What `a.ink --compiler c` asks for. -/
def crashing : Arguments := ⟨.ofText "a.ink", .value .web, .value ".", some (.value "c"), false, none⟩

theorem isPlaced_sample : sample.disk.tree.IsPlaced := ⟨by decide, by decide⟩

/-- The run of the command that cannot start its compiler ends in a fault. -/
theorem crashing_breaks : sample.Breaks crashing (sample.run ["a.ink", "--compiler", "c"]).finish := by
  have ending : (sample.run ["a.ink", "--compiler", "c"]).ending = .fault (.setup "RuntimeError" "boom") := by decide +kernel
  have parsed : Arguments.parse ["a.ink", "--compiler", "c"] = .ok crashing := by decide +kernel
  have known : Level.threshold (sample.levelName crashing) = .ok 20 := by decide +kernel
  have fair : sample.terminal.ShowsPlain := nofun
  rcases run_ends parsed known (Path.IsClean.ofText (by decide)) (fun s given => by cases given; decide) isPlaced_sample
      fair with
    ⟨e, -, target, before, well, -⟩ | ⟨e, -, target, f, -, refused, -⟩ | ⟨ill, -⟩ | broken
  · exact nomatch ending.symm.trans well
  · cases refused
  · exact nomatch ending.symm.trans ill
  · exact broken

/-- The fault is the compiler's, and nothing is shown. -/
theorem crashing_raises : (sample.run ["a.ink", "--compiler", "c"]).ending = .fault (.setup "RuntimeError" "boom") ∧
    (sample.run ["a.ink", "--compiler", "c"]).printed = [] := by
  constructor <;> decide +kernel

/-! ### Sources -/

theorem run_known {args : List String} {threshold : Nat} (parsed : Arguments.parse args = .ok a)
    (known : Level.threshold (m.levelName a) = .ok threshold) : m.run args = m.carryOut a threshold := by
  simp [run, parsed, known]

theorem carryOut_read (read : m.disk.tree.readText a.source.text = .ok source) (threshold : Nat) :
    m.carryOut a threshold = m.exportText threshold a source := by
  simp [carryOut, read]

/-- A source is saved as it was read. -/
theorem exportText_source (found : Page.LocalRuntime.find m.disk.tree m.configuration.runtime = .ok runtime)
    (asked : a.kind = .value .source) (threshold : Nat) :
    (m.exportText threshold a source).finish = m.save a ⟨.source, source⟩ [] := by
  have source_kept : m.conclude a ⟨.source, source⟩ = m.save a ⟨.source, source⟩ [] := by
    simp [conclude]
  obtain ⟨r, eq, answered | ⟨-, compiled, -⟩⟩ := Live.World.finishOp_exportAs m.setup (m.finder a)
    (Gallery.new (Page.runtimeTag runtime none).1) (Page.runtimeTag runtime none).2 a.source.stem source .source
    (some a.source.stem) (show 20 ≤ exportFuel by decide)
  · cases r with
    | fault | cancelled => cases answered
    | value v =>
      cases answered
      unfold exportText
      rw [found]
      dsimp only
      rw [asked]
      dsimp only
      rw [eq]
      exact source_kept
  · exact absurd rfl compiled

theorem save_delivers (done : (m.save a e []).ending = .status 0) : ∃ target : Path,
    (m.save a e []).printed = [saved target] ∧
      Saved m.disk.tree (m.save a e []).tree target.text (Text.Utf8.encode e.content.toList) := by
  unfold save at done ⊢
  cases given : a.output with
  | nothing =>
    rw [given] at done
    cases done
  | value output =>
    rw [given] at done
    dsimp only [saveUnder] at done ⊢
    split at done
    · rename_i tree target written
      unfold showLast at done ⊢
      split at done
      · exact ⟨target, rfl, Export.save_ok written⟩
      · cases done
    · cases done
    · unfold showLast at done
      split at done <;> cases done

/-- A source that is exported as it is: a run that ends well has saved its bytes, every line end a line feed. They are
the bytes of the source just when it has no carriage return. -/
theorem run_source {args : List String} {bytes : List UInt8} {cs : List Char} (parsed : Arguments.parse args = .ok a)
    (asked : a.kind = .value .source) (read : m.disk.tree.readBytes a.source.text = .ok bytes)
    (valid : Text.Utf8.decode bytes = .ok cs) (done : (m.run args).ending = .status 0) :
    (∃ target : Path, (m.run args).printed = [saved target] ∧
      Saved m.disk.tree (m.run args).tree target.text (Text.unifyBytes bytes)) ∧
    (Text.unifyBytes bytes = bytes ↔ 13 ∉ bytes) := by
  refine ⟨?_, Text.unifyBytes_eq_self_iff⟩
  have text : m.disk.tree.readText a.source.text = .ok (String.ofList (Text.unifyLines cs)) := by
    simp [Tree.readText, read, valid]
  have written : Text.Utf8.encode (String.ofList (Text.unifyLines cs)).toList = Text.unifyBytes bytes := by
    rw [String.toList_ofList, Text.encode_unifyLines, Text.Utf8.encode_of_decode valid]
  cases known : Level.threshold (m.levelName a) with
  | error f =>
    simp only [run, parsed, known] at done
    cases done
  | ok threshold =>
    rw [run_known parsed known, carryOut_read text] at done ⊢
    cases found : Page.LocalRuntime.find m.disk.tree m.configuration.runtime with
    | error f =>
      simp only [exportText, found] at done
      cases done
    | ok runtime =>
      have same : (m.exportText threshold a (String.ofList (Text.unifyLines cs))).finish =
          m.save a ⟨.source, String.ofList (Text.unifyLines cs)⟩ [] := exportText_source found asked threshold
      replace done : (m.exportText threshold a (String.ofList (Text.unifyLines cs))).finish.ending = .status 0 := done
      rw [same] at done
      have delivered := save_delivers done
      rw [← same, written] at delivered
      exact delivered

/-- What `a.ink --kind source` asks for. -/
def copying : Arguments := ⟨.ofText "a.ink", .value .source, .value ".", none, false, none⟩

theorem copying_saves : (∃ target : Path, (sample.run ["a.ink", "--kind", "source"]).printed = [saved target] ∧
      Saved sample.disk.tree (sample.run ["a.ink", "--kind", "source"]).tree target.text
        (Text.unifyBytes [97, 13, 10, 98])) ∧
    (Text.unifyBytes [97, 13, 10, 98] = [97, 13, 10, 98] ↔ (13 : UInt8) ∉ [97, 13, 10, 98]) :=
  run_source (show Arguments.parse ["a.ink", "--kind", "source"] = .ok copying by decide +kernel) rfl
    (show sample.disk.tree.readBytes copying.source.text = .ok [97, 13, 10, 98] by decide +kernel)
    (show Text.Utf8.decode [97, 13, 10, 98] = .ok ['a', '\r', '\n', 'b'] by decide +kernel) (by decide +kernel)

/-- The carriage return is lost. -/
theorem copying_differs : (sample.run ["a.ink", "--kind", "source"]).ending = .status 0 ∧
    (sample.run ["a.ink", "--kind", "source"]).tree.at? ["here", "a.ink"] = some (.file [97, 13, 10, 98] 0o644) ∧
    (sample.run ["a.ink", "--kind", "source"]).tree.at? ["here", "Story.ink"] = some (.file [97, 10, 98] 0o600) := by
  refine ⟨?_, ?_, ?_⟩ <;> decide +kernel

end Machine
end Command
end InkPreview
