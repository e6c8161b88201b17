import InkPreview.Compile.Search
import Mathlib.Tactic.Common
/-!
The search for the compiler. Asking about a candidate answers yes for an executable file, and is refused for a path that
is too long; a search that remembers nothing goes by the first candidate of either kind. What is remembered is the last
compiler that was found since the search was told to forget. Main statements: `Search.firstUsable_comes`,
`Search.Session.run_lawful`.
-/
namespace InkPreview

open Files (Path Place Tree)

namespace Files.Tree

variable {t : Tree} {follow : Bool} {fuel links : Nat} {place : Place} {names : List String} {e : OsError}
  {path : String}

/-- Looking a path up is refused for four reasons. -/
def IsRefusal (e : OsError) : Prop := e = .notFound ∨ e = .notDirectory ∨ e = .tooManyLinks ∨ e = .nameTooLong

theorem walk_refusal (h : walk t follow fuel links place names = .error e) : IsRefusal e := by
  induction fuel generalizing links place names with
  | zero =>
    cases h
    simp [IsRefusal]
  | succ fuel ih =>
    unfold walk at h
    split at h
    · cases h
    split at h
    · exact ih h
    split at h
    · exact ih h
    split at h
    · cases h
      simp [IsRefusal]
    dsimp only at h
    split at h
    · split at h
      · cases h
      · cases h
        simp [IsRefusal]
    · exact ih h
    · split at h
      · cases h
      · cases h
        simp [IsRefusal]
    · split at h
      · cases h
      · split at h
        · cases h
          simp [IsRefusal]
        · exact ih h

theorem find_refusal (h : t.find follow path = .error e) : IsRefusal e := by
  unfold find at h
  split at h
  · cases h
    simp [IsRefusal]
  split at h
  · cases h
    simp [IsRefusal]
  · exact walk_refusal h

/-- Asking about a path fails just where the path, or a name on its way, is too long. -/
theorem probe_error_iff {fault : FileFault} : t.probe path = .error fault ↔
    hasNull path = false ∧ t.find true path = .error .nameTooLong ∧ fault = .os .nameTooLong path := by
  unfold probe
  by_cases null : hasNull path = true
  · simp [null]
  · rw [if_neg null]
    simp only [null, true_and]
    cases found : t.find true path with
    | ok f => cases f <;> simp
    | error e => rcases find_refusal found with rfl | rfl | rfl | rfl <;> simp [eq_comm]

theorem probe_file_iff {content : List UInt8} {mode : Nat} : t.probe path = .ok (some (.file content mode)) ↔
    hasNull path = false ∧ ∃ place, t.find true path = .ok (.entry place (.file content mode)) := by
  unfold probe
  by_cases null : hasNull path = true
  · simp [null]
  · rw [if_neg null]
    simp only [null, true_and]
    cases found : t.find true path with
    | ok f => cases f <;> simp
    | error e => rcases find_refusal found with rfl | rfl | rfl | rfl <;> simp

/-- The candidate is not empty, and its path leads to a file that may be executed. -/
def IsCompiler (t : Tree) (c : String) : Prop :=
  c ≠ "" ∧ hasNull (Path.ofText c).text = false ∧ ∃ place content mode,
    t.find true (Path.ofText c).text = .ok (.entry place (.file content mode)) ∧ executableMode mode = true

/-- The path of the candidate, or a name on its way, is longer than the system lets anyone ask about. -/
def IsOverlong (t : Tree) (c : String) : Prop :=
  c ≠ "" ∧ hasNull (Path.ofText c).text = false ∧ t.find true (Path.ofText c).text = .error .nameTooLong

theorem ofText_name (one : '/' ∉ path.toList) (named : path ≠ "") (solid : path ≠ ".") :
    Path.namesOf path = [path] ∧ (Path.ofText path).text = path := by
  have names : Path.namesOf path = [path] := by simp [Path.namesOf, List.splitOn_eq_singleton one]
  have root : path.toList.takeWhile (· = '/') = [] := by
    cases chars : path.toList with
    | nil => rfl
    | cons c rest =>
      rw [chars] at one
      have other : c ≠ '/' := fun eq => one (List.mem_cons.2 (.inl eq.symm))
      exact List.takeWhile_cons_of_neg (by simpa using other)
  exact ⟨names, by simp [Path.ofText, Path.text, Path.rootOf, names, root, named, solid]⟩

/-- A single name that is longer than any file has is refused, whatever files there are. -/
theorem isOverlong_name (one : '/' ∉ path.toList) (clean : hasNull path = false)
    (long : nameLimit < path.utf8ByteSize) :
    t.IsOverlong path := by
  have other : ∀ short : String, short.utf8ByteSize ≤ nameLimit → path ≠ short := by
    rintro short fits rfl
    exact absurd long (Nat.not_lt.2 fits)
  have named : path ≠ "" := other "" (by decide)
  have solid : path ≠ "." := other "." (by decide)
  obtain ⟨names, text⟩ := ofText_name one named solid
  rw [IsOverlong, text]
  refine ⟨named, clean, ?_⟩
  unfold find
  rw [if_neg named]
  split
  · rfl
  · dsimp only
    unfold walkFuel
    rw [names, walk, if_neg (by simp [named, solid]), if_neg (other ".." (by decide)), if_pos long]

end Files.Tree

/-- The first of the candidates with the property. -/
def IsFirst (P : String → Prop) (cs : List String) (c : String) : Prop :=
  ∃ before after, cs = before ++ c :: after ∧ P c ∧ ∀ b ∈ before, ¬ P b

theorem IsFirst.cons {P : String → Prop} {b c : String} {cs : List String} (other : ¬ P b)
    (first : IsFirst P cs c) : IsFirst P (b :: cs) c := by
  obtain ⟨before, after, rfl, here, others⟩ := first
  refine ⟨b :: before, after, rfl, here, fun d mem => ?_⟩
  rcases List.mem_cons.1 mem with rfl | mem
  · exact other
  · exact others d mem

namespace Search

variable {t : Tree} {c : String} {cs : List String} {fault : FileFault}

theorem isUsable_iff : isUsable t c = .ok true ↔ t.IsCompiler c := by
  unfold isUsable Tree.IsCompiler Tree.isExecutable
  by_cases empty : c = ""
  · simp [empty]
  · rw [if_neg empty]
    cases probed : t.probe (Path.ofText c).text with
    | error e =>
      obtain ⟨null, found, -⟩ := Tree.probe_error_iff.1 probed
      simp [Except.map, found]
    | ok e =>
      constructor
      · intro yes
        rcases e with _ | ⟨content, mode⟩ | _ | _
        · cases yes
        · obtain ⟨null, place, found⟩ := Tree.probe_file_iff.1 probed
          exact ⟨empty, null, place, content, mode, found, Except.ok.inj yes⟩
        · cases yes
        · cases yes
      · rintro ⟨-, null, place, content, mode, found, executable⟩
        obtain rfl := Except.ok.inj (probed.symm.trans (Tree.probe_file_iff.2 ⟨null, place, found⟩))
        simp [Except.map, executable]

theorem isUsable_error_iff :
    isUsable t c = .error fault ↔ t.IsOverlong c ∧ fault = .os .nameTooLong (Path.ofText c).text := by
  unfold isUsable Tree.IsOverlong Tree.isExecutable
  by_cases empty : c = ""
  · simp [empty]
  · rw [if_neg empty]
    have failed (x : Except FileFault (Option Files.Entry)) (f : Option Files.Entry → Bool) :
        x.map f = .error fault ↔ x = .error fault := by
      cases x <;> simp [Except.map]
    rw [failed, Tree.probe_error_iff]
    simp [empty, and_assoc]

/-- The candidate decides a search: it is a compiler, or asking about it fails. -/
def Decides (t : Tree) (c : String) : Prop := t.IsCompiler c ∨ t.IsOverlong c

theorem not_decides_iff : ¬ Decides t c ↔ isUsable t c = .ok false := by
  rw [Decides, ← isUsable_iff, not_or]
  cases usable : isUsable t c with
  | error fault => simpa using (isUsable_error_iff.1 usable).1
  | ok yes =>
    have short : ¬ t.IsOverlong c := fun overlong =>
      nomatch usable.symm.trans (isUsable_error_iff.2 ⟨overlong, rfl⟩)
    simp [short]

/-- What the search among the candidates comes to, by the first of them that decides it. -/
inductive Comes (t : Tree) (cs : List String) : Except FileFault (Option String) → Prop
  | found {c : String} (first : IsFirst (Decides t) cs c) (usable : t.IsCompiler c) : Comes t cs (.ok (some c))
  | refused {c : String} (first : IsFirst (Decides t) cs c) (overlong : t.IsOverlong c) :
      Comes t cs (.error (.os .nameTooLong (Path.ofText c).text))
  | missing (nothing : ∀ c ∈ cs, ¬ Decides t c) : Comes t cs (.ok none)

theorem Comes.cons {b : String} {found : Except FileFault (Option String)} (other : ¬ Decides t b)
    (comes : Comes t cs found) :
    Comes t (b :: cs) found := by
  cases comes with
  | found first usable => exact .found (first.cons other) usable
  | refused first overlong => exact .refused (first.cons other) overlong
  | missing nothing => exact .missing (by simpa using ⟨other, nothing⟩)

theorem firstUsable_comes (t : Tree) (cs : List String) : Comes t cs (firstUsable t cs) := by
  induction cs with
  | nil => exact .missing nofun
  | cons c rest ih =>
    unfold firstUsable
    cases usable : isUsable t c with
    | error fault =>
      obtain ⟨overlong, rfl⟩ := isUsable_error_iff.1 usable
      exact .refused ⟨[], rest, rfl, .inr overlong, nofun⟩ overlong
    | ok yes =>
      cases yes with
      | true =>
        have compiler := isUsable_iff.1 usable
        exact .found ⟨[], rest, rfl, .inl compiler, nofun⟩ compiler
      | false => exact ih.cons (not_decides_iff.2 usable)

/-! ### Searches in a row -/

/-- The right answer of a search that asks about all candidates: the first of them that is a compiler. -/
def Chooses (t : Tree) (cs : List String) : Option String → Prop
  | some c => IsFirst t.IsCompiler cs c
  | none => ∀ c ∈ cs, ¬ t.IsCompiler c

theorem Comes.chooses {found : Option String} (comes : Comes t cs (.ok found)) : Chooses t cs found := by
  cases comes with
  | found first usable =>
    obtain ⟨before, after, rfl, -, others⟩ := first
    exact ⟨before, after, rfl, usable, fun b mem compiler => others b mem (.inl compiler)⟩
  | missing nothing => exact fun c mem compiler => nothing c mem (.inl compiler)

/-- What is done in the course of time: a search, the order to forget, and whatever happens to the files. -/
inductive Turn
  | locate
  | forget
  | change (t : Tree)

/-- What the searches have answered with the files as they were, and when they were told to forget. -/
inductive Report
  | located (t : Tree) (answer : Except FileFault (Option String))
  | forgot

def Report.hit? : Report → Option String
  | located _ (.ok (some c)) => some c
  | _ => none

def Report.isLocated : Report → Bool
  | located .. => true
  | forgot => false

/-- The last compiler that was found since the last order to forget. The newest report comes first. -/
def lastHit (log : List Report) : Option String := (log.takeWhile Report.isLocated).findSome? Report.hit?

structure Session where
  search : Search
  tree : Tree
  log : List Report

namespace Session

def start (preferred : String) (places : List String) (t : Tree) : Session := ⟨.new preferred places, t, []⟩

def take (s : Session) : Turn → Session
  | .locate => ⟨(s.search.locate s.tree).search, s.tree, .located s.tree (s.search.locate s.tree).answer :: s.log⟩
  | .forget => ⟨s.search.forget, s.tree, .forgot :: s.log⟩
  | .change t => { s with tree := t }

def run (s : Session) (turns : List Turn) : Session := turns.foldl take s

variable {s : Session} {turns : List Turn}

/-- An answer repeats the last compiler that was found, or comes from the candidates as they are. -/
def IsRight (cs : List String) (older : List Report) (t : Tree) (answer : Except FileFault (Option String)) : Prop :=
  match lastHit older with
  | some c => answer = .ok (some c)
  | none => ∀ found, answer = .ok found → Chooses t cs found

/-- The search has its candidates, remembers the last compiler that was found, and has answered right so far. -/
structure IsLawful (cs : List String) (s : Session) : Prop where
  candidates : s.search.candidates = cs
  remembered : s.search.remembered = lastHit s.log
  answers : ∀ later older t answer, s.log = later ++ .located t answer :: older → IsRight cs older t answer

theorem IsLawful.located (h : s.IsLawful cs) : IsRight cs s.log s.tree (s.search.locate s.tree).answer ∧
    (s.take .locate).search.candidates = cs ∧ (s.take .locate).search.remembered = lastHit (s.take .locate).log := by
  have comes := firstUsable_comes s.tree cs
  simp only [take, IsRight, ← h.remembered, locate, h.candidates]
  cases hit : s.search.remembered with
  | some c => exact ⟨rfl, h.candidates, hit⟩
  | none =>
    have before : none = lastHit s.log := hit.symm.trans h.remembered
    cases usable : firstUsable s.tree cs with
    | error fault => exact ⟨by simp, h.candidates, hit.trans before⟩
    | ok found =>
      rw [usable] at comes
      have chooses : ∀ found', (.ok found : Except FileFault _) = .ok found' → Chooses s.tree cs found' :=
        fun _ same => Except.ok.inj same ▸ comes.chooses
      cases found with
      | some c => exact ⟨chooses, h.candidates, rfl⟩
      | none => exact ⟨chooses, h.candidates, hit.trans before⟩

theorem IsLawful.take (h : s.IsLawful cs) (turn : Turn) : (s.take turn).IsLawful cs := by
  cases turn with
  | change t => exact ⟨h.candidates, h.remembered, h.answers⟩
  | forget =>
    refine ⟨h.candidates, rfl, fun later older t answer split => ?_⟩
    cases later with
    | nil => cases split
    | cons r later => exact h.answers later older t answer (List.cons.inj split).2
  | locate =>
    obtain ⟨right, candidates, remembered⟩ := h.located
    refine ⟨candidates, remembered, fun later older t answer split => ?_⟩
    cases later with
    | nil =>
      obtain ⟨same, rfl⟩ := List.cons.inj split
      cases same
      exact right
    | cons r later => exact h.answers later older t answer (List.cons.inj split).2

theorem IsLawful.run (h : s.IsLawful cs) (turns : List Turn) : (s.run turns).IsLawful cs := by
  induction turns generalizing s with
  | nil => exact h
  | cons turn rest ih => exact ih (h.take turn)

theorem isLawful_start (preferred : String) (places : List String) (t : Tree) :
    (start preferred places t).IsLawful (preferred :: places) :=
  ⟨rfl, rfl, fun later older t answer split => by cases later <;> cases split⟩

/-- What is answered does not depend on the answers before, but for what the search remembers. -/
theorem run_log (turns : List Turn) (search : Search) (t : Tree) :
    ∃ later, ∀ log, (run ⟨search, t, log⟩ turns).log = later ++ log := by
  induction turns generalizing search t with
  | nil => exact ⟨[], fun _ => rfl⟩
  | cons turn rest ih =>
    cases turn with
    | locate =>
      obtain ⟨later, eq⟩ := ih (search.locate t).search t
      exact ⟨later ++ [.located t (search.locate t).answer], fun log => (eq _).trans (List.append_cons _ _ _)⟩
    | forget =>
      obtain ⟨later, eq⟩ := ih search.forget t
      exact ⟨later ++ [.forgot], fun log => (eq _).trans (List.append_cons _ _ _)⟩
    | change t' => exact ih search t'

/-- A search that finds nothing leaves nothing behind. -/
theorem take_missing (missing : (s.search.locate s.tree).answer = .ok none) :
    s.take .locate = { s with log := .located s.tree (.ok none) :: s.log } := by
  have same : (s.search.locate s.tree).search = s.search := by
    unfold locate at missing ⊢
    split
    · rfl
    · split
      · rfl
      · rename_i usable
        simp_all
      · rfl
  simp only [take, missing, same]

/-- In every course of searches, orders to forget and changes of the files, a search answers with
the last compiler that was found since it was last told to forget, whatever has become of that file;
if there is none, and asking does not fail, with the first candidate that is a compiler as the files
are, or with none if no candidate is. Without a search that has answered with none, all that follows
is answered the same. -/
theorem run_lawful (preferred : String) (places : List String) (t : Tree) (turns : List Turn) :
    (∀ later older now answer, ((start preferred places t).run turns).log = later ++ .located now answer :: older →
      (∀ c, lastHit older = some c → answer = .ok (some c)) ∧
      (lastHit older = none → (∀ fault, answer ≠ .error fault) →
        ∃ found, answer = .ok found ∧ Chooses now (preferred :: places) found)) ∧
    ∀ more, let s := (start preferred places t).run turns
      (s.search.locate s.tree).answer = .ok none →
      ∃ later, ((start preferred places t).run (turns ++ .locate :: more)).log =
          later ++ .located s.tree (.ok none) :: s.log ∧
        ((start preferred places t).run (turns ++ more)).log = later ++ s.log := by
  constructor
  · intro later older now answer split
    have right := ((isLawful_start preferred places t).run turns).answers later older now answer split
    constructor
    · intro c hit
      simpa only [IsRight, hit] using right
    · intro forgotten calm
      simp only [IsRight, forgotten] at right
      cases answer with
      | error fault => exact absurd rfl (calm fault)
      | ok found => exact ⟨found, rfl, right found rfl⟩
  · intro more s missing
    obtain ⟨later, eq⟩ := run_log more s.search s.tree
    refine ⟨later, ?_, ?_⟩
    · rw [run, List.foldl_append, List.foldl_cons,
        show take (turns.foldl take (start preferred places t)) .locate = _ from take_missing missing]
      exact eq _
    · rw [run, List.foldl_append]
      exact eq s.log

/-- Files without a compiler, and with one at the second place. -/
def bare : Tree := .new ["here"] "here"

def equipped : Tree := bare.put ["here", "c"] (.file [] 0o755)

/-- A compiler that was not there at first is found, and goes on being found when it has been taken
away, until the search is told to forget. -/
theorem sample_answers :
    let sought := (start "b" ["c"] bare).run [.locate, .change equipped, .locate, .change bare]
    (sought.search.locate sought.tree).answer = .ok (some "c") ∧
    (∃ found, (sought.search.forget.locate sought.tree).answer = .ok found ∧ Chooses bare ["b", "c"] found) ∧
    ∃ later, sought.log = later ++ [.located bare (.ok none)] ∧
      ((start "b" ["c"] bare).run [.change equipped, .locate, .change bare]).log = later := by
  let turns : List Turn := [.locate, .change equipped, .locate, .change bare]
  have repeated := (run_lawful "b" ["c"] bare (turns ++ [.locate])).1 [] _ _ _ rfl
  have anew := (run_lawful "b" ["c"] bare (turns ++ [.forget, .locate])).1 [] _ _ _ rfl
  have calm : (((start "b" ["c"] bare).run turns).search.forget.locate bare).answer.isOk = true := by decide +kernel
  have missing : ((Search.new "b" ["c"]).locate bare).answer = .ok none := by decide +kernel
  obtain ⟨later, eq, eq'⟩ := (run_lawful "b" ["c"] bare []).2 [.change equipped, .locate, .change bare] missing
  refine ⟨repeated.1 "c" (by decide +kernel), anew.2 rfl fun fault failed => ?_, later, eq,
    eq'.trans (List.append_nil later)⟩
  rw [show (((start "b" ["c"] bare).run turns).search.forget.locate bare).answer = .error fault from failed] at calm
  cases calm

end Session
end Search
end InkPreview
