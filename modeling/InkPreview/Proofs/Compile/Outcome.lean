import InkPreview.Compile.Child
import InkPreview.Proofs.Text.Utf8
/-!
What a run of the compiler comes to. A story is what the output file holds after one mark at most, with its line ends
unified, and is never blank; the diagnostics of a failed run are what it has printed. Main statements:
`Child.outcome_success_iff`, `Child.outcome_written`, `Child.outcome_failed`.
-/
namespace InkPreview

namespace Text

variable {bs : List UInt8} {cs : List Char}

namespace Utf8

/-- The bytes after the mark, if they begin with it. -/
def unmarked (bs : List UInt8) : List UInt8 := if mark.isPrefixOf bs then bs.drop 3 else bs

@[simp] theorem unmarked_mark (bs : List UInt8) : unmarked (mark ++ bs) = bs := by
  rw [unmarked, if_pos (List.isPrefixOf_iff_prefix.2 (List.prefix_append _ _))]
  rfl

/-- Bytes that only begin the mark are no text. -/
theorem eq_nil_of_short {cs : List Char} (short : (encode cs).length < 3) (begins : encode cs <+: mark) : cs = [] := by
  have decoded := decode_encode cs
  obtain ⟨rest, eq⟩ := begins
  rcases h : encode cs with _ | ⟨a, _ | ⟨b, _ | ⟨c, more⟩⟩⟩
  · rw [h, decode, decodeFrom] at decoded
    exact (Except.ok.inj decoded).symm
  · obtain rfl : a = 0xef := by simpa [h, mark] using congrArg List.head? eq
    rw [h] at decoded
    exact absurd decoded (by simp [decode, decodeFrom, piece, tail])
  · obtain ⟨rfl, rfl⟩ : a = 0xef ∧ b = 0xbb := by simpa [h, mark] using congrArg (List.take 2) eq
    rw [h] at decoded
    exact absurd decoded (by simp [decode, decodeFrom, piece, tail])
  · simp only [h, List.length_cons] at short
    omega

/-- Marked bytes are a text just where they are its encoding after at most one mark. -/
theorem decodeMarked_eq_ok_iff (filled : cs ≠ []) : decodeMarked bs = .ok cs ↔ encode cs = unmarked bs := by
  unfold decodeMarked unmarked
  split
  · rename_i short
    obtain ⟨short, begins⟩ : bs.length < 3 ∧ bs <+: mark := by simpa using short
    have unmarked : ¬ mark.isPrefixOf bs = true := fun h =>
      absurd (List.isPrefixOf_iff_prefix.1 h).length_le (by simpa [mark] using short)
    rw [if_neg unmarked]
    refine ⟨fun eq => absurd (Except.ok.inj eq).symm filled, fun eq => absurd (eq_nil_of_short ?_ ?_) filled⟩
    · exact eq ▸ short
    · exact eq ▸ begins
  · split
    · exact decode_eq_ok_iff
    · exact decode_eq_ok_iff

/-- Text that does not begin with the mark has bytes that do not. -/
theorem unmarked_encode (first : cs.head? ≠ some '\ufeff') : unmarked (encode cs) = encode cs := by
  rw [unmarked, if_neg]
  intro marked
  obtain ⟨rest, eq⟩ := List.isPrefixOf_iff_prefix.1 marked
  cases cs with
  | nil => simp [mark, encode] at eq
  | cons c cs =>
    obtain ⟨b, later, more, front, read, -⟩ := piece_encode c (encode cs)
    obtain ⟨rfl, rfl⟩ := List.cons.inj (eq.trans front)
    have mark : piece 0xef ([0xbb, 0xbf] ++ rest) = .char '\ufeff' 2 := by simp [piece, tail]
    obtain ⟨rfl, -⟩ : '\ufeff' = c ∧ 2 = more := by simpa using mark.symm.trans read
    exact first rfl

end Utf8

/-- Unified line ends are blank as line ends are. -/
theorem solid_unifyLines : (∃ c ∈ unifyLines cs, isBlank c = false) ↔ ∃ c ∈ cs, isBlank c = false := by
  have feed : isBlank '\n' = true := rfl
  have back : isBlank '\r' = true := rfl
  fun_induction unifyLines cs with
  | case1 => rfl
  | case2 rest ih => simp [feed, back, ih]
  | case3 rest _ ih => simp [feed, back, ih]
  | case4 c rest _ _ ih => simp [ih]

theorem trim_isEmpty_iff : (trim cs).isEmpty = false ↔ ∃ c ∈ cs, isBlank c = false := by
  rw [← Bool.not_eq_true, List.isEmpty_iff, trim_eq_nil]
  simp

end Text

open Text

/-- The file can be read, and its bytes are the encoding of the text after at most one mark. -/
def OutputFile.Holds (f : OutputFile) (cs : List Char) : Prop := ∃ bs, f = .bytes bs ∧ Utf8.encode cs = Utf8.unmarked bs

variable {f : OutputFile} {c : Child} {cs : List Char} {a text : String}

/-- The text of a file with its line ends unified, where it is not blank, is what the file is read as. -/
theorem OutputFile.read_iff (solid : ∃ x ∈ cs, isBlank x = false) :
    f.read = .ok cs ↔ ∃ held, f.Holds held ∧ cs = unifyLines held := by
  have filled {held : List Char} (eq : cs = unifyLines held) : held ≠ [] := by
    rintro rfl
    simp [eq, unifyLines] at solid
  cases f with
  | missing | directory => simp [OutputFile.read, OutputFile.Holds]
  | bytes bs =>
    simp only [OutputFile.read, OutputFile.Holds, OutputFile.bytes.injEq, exists_eq_left']
    constructor
    · intro read
      split at read
      · rename_i held decoded
        obtain rfl := Except.ok.inj read
        exact ⟨held, (Utf8.decodeMarked_eq_ok_iff (filled rfl)).1 decoded, rfl⟩
      · cases read
    · rintro ⟨held, eq, rfl⟩
      rw [(Utf8.decodeMarked_eq_ok_iff (filled rfl)).2 eq]

namespace Child

/-- A run comes to a story just where it ends without an error and its output holds a text that is not blank: that text,
with its line ends unified. -/
theorem outcome_success_iff : c.outcome.1 = .success a ↔ c.exitCode = 0 ∧ ∃ cs, c.output.Holds cs ∧
    (∃ x ∈ cs, isBlank x = false) ∧ a = String.ofList (unifyLines cs) := by
  unfold Child.outcome
  split
  · rename_i failed
    simp [failed]
  · rename_i clean
    have clean : c.exitCode = 0 := by simpa using clean
    simp only [clean, true_and]
    cases read : c.output.read with
    | error reason =>
      refine ⟨nofun, ?_⟩
      rintro ⟨held, holds, solid, rfl⟩
      exact nomatch read.symm.trans ((OutputFile.read_iff (solid_unifyLines.2 solid)).2 ⟨held, holds, rfl⟩)
    | ok cs =>
      dsimp only
      split
      · rename_i blank
        refine ⟨nofun, ?_⟩
        rintro ⟨held, holds, solid, rfl⟩
        have read' := (OutputFile.read_iff (solid_unifyLines.2 solid)).2 ⟨held, holds, rfl⟩
        obtain rfl := Except.ok.inj (read.symm.trans read')
        exact absurd (trim_isEmpty_iff.2 (solid_unifyLines.2 solid)) (by simp [blank])
      · rename_i filled
        have solid := trim_isEmpty_iff.1 (by simpa using filled)
        constructor
        · intro eq
          obtain ⟨held, holds, rfl⟩ := (OutputFile.read_iff solid).1 read
          exact ⟨held, holds, solid_unifyLines.1 solid, (Outcome.success.inj eq).symm⟩
        · rintro ⟨held, holds, solid', rfl⟩
          have read' := (OutputFile.read_iff (solid_unifyLines.2 solid')).2 ⟨held, holds, rfl⟩
          obtain rfl := Except.ok.inj (read.symm.trans read')
          rfl

/-- What a run comes to is no story that is blank. -/
theorem outcome_solid (success : c.outcome.1 = .success a) : ∃ x ∈ a.toList, isBlank x = false := by
  obtain ⟨-, cs, -, solid, rfl⟩ := outcome_success_iff.1 success
  rw [String.toList_ofList]
  exact solid_unifyLines.2 solid

/-- A text is read as it was written, with the mark before it or without. -/
theorem outcome_written (solid : ∃ x ∈ text.toList, isBlank x = false) (plain : '\r' ∉ text.toList)
    (first : text.toList.head? ≠ some '\ufeff') (clean : c.exitCode = 0)
    (written : c.output = .bytes (Utf8.encode text.toList) ∨ c.output = .bytes (Utf8.mark ++ Utf8.encode text.toList)) :
    c.outcome.1 = .success text := by
  refine outcome_success_iff.2 ⟨clean, text.toList, ?_, solid, ?_⟩
  · rcases written with eq | eq
    · exact ⟨_, eq, (Utf8.unmarked_encode first).symm⟩
    · exact ⟨_, eq, (Utf8.unmarked_mark _).symm⟩
  · rw [unifyLines_of_not_mem plain, String.ofList_toList]

/-- A run that ends with an error is a failure of the process, whatever its output holds, with what it has printed for a
message. -/
theorem outcome_failed (failed : c.exitCode ≠ 0) : ∃ m, c.outcome.1 = .failed .processError m ∧
    ∀ m', m' ≠ "" → c.printed = Utf8.encode m'.toList → m = m' := by
  refine ⟨_, by rw [Child.outcome, if_pos failed], fun m' filled printed => ?_⟩
  rw [printed, Utf8.decodeLossy_encode, String.ofList_toList, if_neg filled]

/-- A compiler that marks its output, and ends its lines as some systems do. -/
example : (⟨none, none, 0, 0, [], .bytes (Utf8.mark ++ [123, 13, 10, 125]), false, none⟩ : Child).outcome.1 =
    .success "\x7b\n\x7d" := by
  decide +kernel

end Child
end InkPreview
