import InkPreview.Proofs.Compile.Search
import InkPreview.Proofs.Live.Verdict
/-!
Searching in an editor. A search that remembers nothing goes by the first candidate that decides it;
where that one is too long to be asked about, a compile at once gets the refusal instead of a
result, and no editor is started. Main statement: `searches_decided`.
-/
namespace InkPreview

open Files (Path Tree)
open Live (Finder Setup Subscriber World)

theorem IsFirst.unique {P : String → Prop} {cs : List String} {c c' : String} (first : IsFirst P cs c)
    (first' : IsFirst P cs c') : c = c' := by
  obtain ⟨before, after, rfl, here, others⟩ := first
  obtain ⟨before', after', split, here', others'⟩ := first'
  induction before generalizing before' with
  | nil =>
    cases before' with
    | nil => exact (List.cons.inj split).1
    | cons b rest => exact absurd ((List.cons.inj split).1 ▸ here) (others' b List.mem_cons_self)
  | cons b rest ih =>
    cases before' with
    | nil => exact absurd ((List.cons.inj split).1 ▸ here') (others b List.mem_cons_self)
    | cons b' rest' =>
      exact ih (fun d mem => others d (List.mem_cons_of_mem b mem)) rest' (List.cons.inj split).2
        fun d mem => others' d (List.mem_cons_of_mem b' mem)

namespace Search

variable {t : Tree} {cs : List String} {found found' : Except FileFault (Option String)}

theorem Comes.unique (h : Comes t cs found) (h' : Comes t cs found') : found = found' := by
  have short {c : String} (usable : t.IsCompiler c) (overlong : t.IsOverlong c) : False := by
    obtain ⟨-, -, place, content, mode, leads, -⟩ := usable
    exact nomatch leads.symm.trans overlong.2.2
  have decided {c : String} (first : IsFirst (Decides t) cs c) (nothing : ∀ c ∈ cs, ¬ Decides t c) : False := by
    obtain ⟨before, after, rfl, here, -⟩ := first
    exact nothing c (by simp) here
  cases h with
  | found first usable =>
    cases h' with
    | found first' => rw [first.unique first']
    | refused first' overlong => exact (short usable (first.unique first' ▸ overlong)).elim
    | missing nothing => exact (decided first nothing).elim
  | refused first overlong =>
    cases h' with
    | found first' usable => exact (short usable (first.unique first' ▸ overlong)).elim
    | refused first' => rw [first.unique first']
    | missing nothing => exact (decided first nothing).elim
  | missing nothing =>
    cases h' with
    | found first | refused first => exact (decided first nothing).elim
    | missing => rfl

theorem locate_new (preferred : String) (places : List String) (t : Tree) :
    ((new preferred places).locate t).answer = firstUsable t (preferred :: places) := by
  simp only [locate, new, candidates]
  cases firstUsable t (preferred :: places) with
  | error f => rfl
  | ok found => cases found <;> rfl

/-- What an editor is told of a search among the files. -/
def finder (s : Search) (t : Tree) : Finder := ⟨(s.locate t).answer.mapError .file, (s.locate t).notes⟩

end Search

namespace Live.World

/-- An editor starts unless the search is refused. -/
theorem boot_ok_iff (s : Search) (t : Tree) {setup : Setup} {runtime : String × List Note}
    {subscribers : List Subscriber} :
    (∃ w, boot setup (s.finder t) runtime subscribers = .ok w) ↔ ∀ f, (s.locate t).answer ≠ .error f := by
  unfold boot Search.finder
  cases (s.locate t).answer with
  | error f => simp [Except.mapError]
  | ok found => simp [Except.mapError]

/-- A search that remembers nothing comes to the first of its candidates that is a compiler or too
long to be asked about: it finds the one and is refused by the other, and finds nothing if there is
neither. A compile at once comes to a missing compiler where the search finds nothing, and fails
where it is refused; and the editor starts unless it is refused. -/
theorem searches_decided (preferred : String) (places : List String) (t : Tree) :
    let s := Search.new preferred places
    (∀ found, (s.locate t).answer = found ↔ Search.Comes t (preferred :: places) found) ∧
    (∀ (w : World) u base text, w.finder = s.finder t → w.current = some (u, base, .start (.compile text)) →
      ((s.locate t).answer = .ok none →
        w.tick.current = some (u, base, .value (.outcome (.failed .toolMissing toolMissingMessage)))) ∧
      ∀ f, (s.locate t).answer = .error f → w.tick.current = some (u, base, .fault (.file f))) ∧
    ∀ setup runtime subscribers, (∃ w, boot setup (s.finder t) runtime subscribers = .ok w) ↔
      ∀ f, (s.locate t).answer ≠ .error f := by
  intro s
  refine ⟨fun found => ?_, fun w u base text told now => ?_, fun setup runtime subscribers => ?_⟩
  · have comes : Search.Comes t (preferred :: places) (s.locate t).answer := by
      rw [Search.locate_new]
      exact Search.firstUsable_comes t _
    exact ⟨fun eq => eq ▸ comes, fun comes' => comes.unique comes'⟩
  · have answer : w.finder.answer = (s.locate t).answer.mapError .file := by rw [told, Search.finder]
    have back (idle : ∀ exe, (s.locate t).answer ≠ .ok (some exe)) :
        w.tick.current = some (u, base, answerSignal (compileAnswer w.finder.answer (w.setup.child text))) := by
      rw [show w.tick = w.beginCompile u base text from tick_running now]
      refine beginCompile_idle fun launches => ?_
      obtain ⟨⟨exe, found⟩, -⟩ := launches
      rw [answer] at found
      cases answered : (s.locate t).answer with
      | error f =>
        rw [answered] at found
        cases found
      | ok r =>
        rw [answered] at found
        exact idle exe (by rw [answered]; exact congrArg Except.ok (Except.ok.inj found))
    constructor
    · intro missing
      rw [back (by simp [missing]), answer, missing]
      rfl
    · intro f refused
      rw [back (by simp [refused]), answer, refused]
      rfl
  · exact boot_ok_iff s t

/-- A setup whose compiler cannot be started. -/
def startless : Setup := ⟨0, .whole 0, false, fun _ => ⟨none, none, 0, 0, [], .missing, false, none⟩⟩

/-- Without a compiler, a compile at once comes to a missing one, and the editor starts. -/
theorem searches_bare : let s := Search.new "b" ["c"]
    Search.Comes Search.Session.bare ["b", "c"] (.ok none) ∧
    ((start startless (s.finder Search.Session.bare) (.new "") []).run [.begin (.compile "x")]).tick.current =
      some (0, [], .value (.outcome (.failed .toolMissing toolMissingMessage))) ∧
    ∃ w, boot startless (s.finder Search.Session.bare) ("", []) [] = .ok w := by
  intro s
  have missing : (s.locate Search.Session.bare).answer = .ok none := by decide +kernel
  obtain ⟨decided, compiles, boots⟩ := searches_decided "b" ["c"] Search.Session.bare
  exact ⟨(decided _).1 missing, (compiles _ 0 [] "x" rfl rfl).1 missing, (boots _ _ _).2 (by simp [s, missing])⟩

/-- A name that no file can have, if the number is large. -/
def longName (n : Nat) : String := String.ofList (List.replicate n 'a')

theorem utf8ByteSize_longName (n : Nat) : (longName n).utf8ByteSize = n := by
  induction n with
  | zero => rfl
  | succ n ih =>
    rw [longName] at ih
    rw [longName, List.replicate_succ, String.ofList_cons, String.utf8ByteSize_append,
      String.utf8ByteSize_singleton, ih]
    exact Nat.add_comm 1 n

theorem clean_longName (n : Nat) : Tree.hasNull (longName n) = false := by simp [longName, Tree.hasNull]

theorem isOverlong_longName (t : Tree) {n : Nat} (long : Tree.nameLimit < n) : t.IsOverlong (longName n) := by
  refine Tree.isOverlong_name ?_ ?_ ?_
  · simp [longName]
  · exact clean_longName n
  · rwa [utf8ByteSize_longName]

/-- A candidate that is too long to be asked about hides the compiler after it, and keeps the editor from starting. -/
theorem overlong_hides_compiler : Search.Session.equipped.IsCompiler "c" ∧ Tree.hasNull (longName 256) = false ∧
    (∃ f, ((Search.new (longName 256) ["c"]).locate Search.Session.equipped).answer = .error f) ∧
    ∀ setup runtime subscribers w,
      boot setup ((Search.new (longName 256) ["c"]).finder Search.Session.equipped) runtime subscribers ≠ .ok w := by
  have overlong : Search.Session.equipped.IsOverlong (longName 256) := isOverlong_longName _ (by decide)
  have refused : ((Search.new (longName 256) ["c"]).locate Search.Session.equipped).answer =
      .error (.os .nameTooLong (Path.ofText (longName 256)).text) := by
    rw [Search.locate_new]
    exact (Search.firstUsable_comes _ _).unique (.refused ⟨[], ["c"], rfl, .inr overlong, by simp⟩ overlong)
  refine ⟨Search.isUsable_iff.1 (by decide +kernel), clean_longName 256, ⟨_, refused⟩, ?_⟩
  intro setup runtime subscribers w booted
  exact (boot_ok_iff _ _).1 ⟨w, booted⟩ _ refused

end Live.World
end InkPreview
