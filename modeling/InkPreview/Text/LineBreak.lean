/-!
Line ends. Text files are read with every line end as a plain line feed and written as they are.
-/
namespace InkPreview.Text

/-- A carriage return, alone or before a line feed, becomes one line feed. -/
def unifyLines : List Char → List Char
  | [] => []
  | '\r' :: '\n' :: rest => '\n' :: unifyLines rest
  | '\r' :: rest => '\n' :: unifyLines rest
  | c :: rest => c :: unifyLines rest

/-- Text without a carriage return is read as it is. -/
theorem unifyLines_of_not_mem {cs : List Char} (h : '\r' ∉ cs) : unifyLines cs = cs := by
  fun_induction unifyLines cs with
  | case1 => rfl
  | case2 => simp at h
  | case3 => simp at h
  | case4 c rest _ _ ih => simp_all

end InkPreview.Text
