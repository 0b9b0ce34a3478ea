import Mathlib.Data.List.TakeWhile
import MissyKernel.StringCompare

/-!
# Copying strings (`movecopy.c`)

The source is an object of its text and the terminator, so that a read behind it is a fault, and
the destination is another one. `strcpy` stops in front of the terminator and does not copy it:
the copy is a string of the same length only if a zero happens to be there. `strncpy` copies as
many bytes as it is told to, and so runs behind the terminator of a source that is shorter.

A copy by `strcpy` is right if the library's own `strlen` and `strcmp` find the same string in the
destination, and one by `strncpy` if it has the first bytes of the text and zeros behind them; in
both cases nothing else may change. The invariant of both loops is that the front of
the destination is the front of the source: `store_append` is the step, `strcpyLoop_eq` and
`strncpyLoop_eq` what the loops come to.
-/

namespace MissyKernel

/-! ## The functions -/

/-- `strlen` -/
def strlen (turns : ℕ) (str : List (BitVec 8)) : Except Fault ℕ :=
  scanWhile (fun c => decide (c ≠ 0)) str 0 turns 0

/-- The loop of `strcpy`. -/
def strcpyLoop (source : List (BitVec 8)) :
    ℕ → ℕ → List (BitVec 8) → Except Fault (List (BitVec 8))
  | 0, _, _ => .error .turns
  | turns + 1, i, dst => do
    let c ← load source i
    if c = 0 then pure dst
    else
      let dst ← store dst i c
      strcpyLoop source turns (i + 1) dst

/-- `strcpy`: the destination. -/
def strcpy (turns : ℕ) (destination source : List (BitVec 8)) : Except Fault (List (BitVec 8)) :=
  strcpyLoop source turns 0 destination

/-- The loop of `strncpy`. -/
def strncpyLoop (source : List (BitVec 8)) :
    ℕ → ℕ → List (BitVec 8) → Except Fault (List (BitVec 8))
  | 0, _, dst => pure dst
  | length + 1, i, dst => do
    let c ← load source i
    let dst ← store dst i c
    strncpyLoop source length (i + 1) dst

/-- `strncpy`: the destination. -/
def strncpy (destination source : List (BitVec 8)) (length : ℕ) :
    Except Fault (List (BitVec 8)) :=
  strncpyLoop source length 0 destination

/-- `strcpy` copies a text right: the copy has its length and compares equal, and the bytes behind
its terminator are the ones of before. -/
def StrcpyRight (destination text : List (BitVec 8)) : Prop :=
  ∃ turns result, strcpy turns destination (text ++ [0]) = .ok result ∧
    strlen turns result = .ok text.length ∧ strcmp turns result (text ++ [0]) = .ok 0 ∧
    result.length = destination.length ∧
    result.drop (text.length + 1) = destination.drop (text.length + 1)

/-- `strncpy` copies a text right: its first `n` bytes, zeros up to `n`, and behind them the bytes
of before. -/
def StrncpyRight (destination text : List (BitVec 8)) (n : ℕ) : Prop :=
  strncpy destination (text ++ [0]) n =
    .ok (text.take n ++ List.replicate (n - text.length) 0 ++ destination.drop n)

variable {destination source text copied rest behind behind' str1 str2 : List (BitVec 8)}
  {c c' : BitVec 8} {i n turns : ℕ}

/-! ## Strings -/

theorem strlen_eq (htext : ∀ c ∈ text, c ≠ 0) (hturns : text.length < turns) :
    strlen turns (text ++ 0 :: behind) = .ok text.length := by
  have hall : ∀ c ∈ text, decide (c ≠ 0) = true := fun c hc => decide_eq_true (htext c hc)
  have hscan : strlen turns (text ++ 0 :: behind) =
      .ok (0 + (text.takeWhile fun _ => true).length) := scanWhile_eq rfl hall rfl hturns
  rw [hscan, Nat.zero_add, List.takeWhile_eq_self_iff.mpr fun _ _ => rfl]

/-- Where `strlen` stops there is a terminator. -/
theorem load_of_strlen (h : strlen turns source = .ok n) : load source n = .ok 0 := by
  obtain ⟨c, hload, hc⟩ := test_of_scanWhile h
  rw [Nat.zero_add] at hload
  rw [hload, not_not.mp (of_decide_eq_false hc)]

/-- Two strings of the same text compare equal. -/
theorem strcmpLoop_eq (htext : ∀ c ∈ text, c ≠ 0) (h1 : str1.drop i = text ++ 0 :: behind)
    (h2 : str2.drop i = text ++ 0 :: behind') (hturns : text.length < turns) :
    strcmpLoop str1 str2 turns i = .ok (i + text.length) := by
  induction text generalizing i turns with
  | nil =>
    obtain ⟨turns, rfl⟩ := Nat.exists_eq_succ_of_ne_zero (Nat.ne_of_gt hturns)
    rw [strcmpLoop, load_of_drop h1, except_ok_bind, if_pos rfl]
    rfl
  | cons c text ih =>
    obtain ⟨turns, rfl⟩ := Nat.exists_eq_succ_of_ne_zero (Nat.ne_of_gt (Nat.zero_lt_of_lt hturns))
    obtain ⟨hc, htext⟩ := List.forall_mem_cons.mp htext
    rw [strcmpLoop, load_of_drop h1, except_ok_bind, if_neg hc, load_of_drop h2, except_ok_bind,
      if_neg hc, if_neg (not_not.mpr rfl),
      ih htext (drop_succ_of_drop h1) (drop_succ_of_drop h2) (Nat.lt_of_succ_lt_succ hturns),
      List.length_cons, Nat.add_right_comm, Nat.add_assoc]

theorem drop_length_append (text behind : List (BitVec 8)) :
    (text ++ behind).drop text.length = behind := by
  rw [List.drop_append_of_le_length (le_refl _), List.drop_length, List.nil_append]

theorem strcmp_eq (htext : ∀ c ∈ text, c ≠ 0) (hturns : text.length < turns) :
    strcmp turns (text ++ 0 :: behind) (text ++ 0 :: behind') = .ok 0 := by
  have hload : ∀ behind, load (text ++ 0 :: behind) text.length = .ok (0 : BitVec 8) :=
    fun behind => load_of_drop (drop_length_append text (0 :: behind))
  rw [strcmp, strcmpLoop_eq htext rfl rfl hturns, except_ok_bind, Nat.zero_add, difference, hload,
    except_ok_bind, hload, except_ok_bind]
  rfl

/-! ## A copy under way -/

/-- A store behind what is copied already. -/
theorem store_append (copied behind : List (BitVec 8)) (c c' : BitVec 8) :
    store (copied ++ c' :: behind) copied.length c = .ok (copied ++ [c] ++ behind) := by
  rw [store, if_pos (by rw [List.length_append, List.length_cons]; omega),
    List.set_append_right _ _ (le_refl _), Nat.sub_self, List.set_cons_zero, List.append_assoc]
  rfl

theorem length_copied (copied : List (BitVec 8)) (c : BitVec 8) :
    (copied ++ [c]).length = copied.length + 1 := by
  rw [List.length_append, List.length_singleton]

/-- What is left of the source when one more byte is copied. -/
theorem drop_copied (h : source.drop copied.length = c :: rest) :
    source.drop (copied ++ [c]).length = rest := by
  rw [length_copied]
  exact drop_succ_of_drop h

/-! ## `strcpy` -/

theorem strcpyLoop_succ (hc : c ≠ 0) (h : source.drop copied.length = c :: rest) (turns : ℕ) :
    strcpyLoop source (turns + 1) copied.length (copied ++ c' :: behind) =
      strcpyLoop source turns (copied ++ [c]).length (copied ++ [c] ++ behind) := by
  rw [strcpyLoop, load_of_drop h, except_ok_bind, if_neg hc, store_append, except_ok_bind,
    length_copied]

/-- It copies the text and leaves everything behind it. -/
theorem strcpyLoop_eq (hrest : ∀ c ∈ rest, c ≠ 0) (h : source.drop copied.length = rest ++ [0])
    (hlength : rest.length ≤ behind.length) (turns : ℕ) :
    strcpyLoop source turns copied.length (copied ++ behind) =
      if rest.length < turns then .ok (copied ++ rest ++ behind.drop rest.length)
      else .error .turns := by
  induction rest generalizing copied behind turns with
  | nil =>
    cases turns with
    | zero => rfl
    | succ turns =>
      rw [strcpyLoop, load_of_drop h, except_ok_bind, if_pos rfl, List.append_nil]
      rfl
  | cons c rest ih =>
    cases turns with
    | zero => rw [strcpyLoop, if_neg (Nat.not_lt_zero _)]
    | succ turns =>
      obtain ⟨hc, hrest⟩ := List.forall_mem_cons.mp hrest
      obtain ⟨c', behind, rfl⟩ := List.exists_cons_of_ne_nil
        (List.ne_nil_of_length_pos (Nat.zero_lt_of_lt hlength))
      rw [strcpyLoop_succ hc h, ih hrest (drop_copied h) (Nat.le_of_succ_le_succ hlength),
        List.append_assoc copied [c] rest]
      exact ite_congr (propext Nat.succ_lt_succ_iff.symm) (fun _ => rfl) fun _ => rfl

theorem strcpy_eq (htext : ∀ c ∈ text, c ≠ 0) (hlength : text.length ≤ destination.length)
    (turns : ℕ) :
    strcpy turns destination (text ++ [0]) =
      if text.length < turns then .ok (text ++ destination.drop text.length)
      else .error .turns := by
  have hcopy : strcpyLoop (text ++ [0]) turns ([] : List (BitVec 8)).length ([] ++ destination) =
      if text.length < turns then .ok ([] ++ text ++ destination.drop text.length)
      else .error .turns := strcpyLoop_eq htext rfl hlength turns
  exact hcopy

/-- The copy is right exactly if the destination had a zero where the terminator belongs. -/
theorem strcpyRight_iff (htext : ∀ c ∈ text, c ≠ 0) (hlength : text.length < destination.length) :
    StrcpyRight destination text ↔ destination[text.length]? = some 0 := by
  obtain ⟨c, behind, hdrop⟩ : ∃ c behind, destination.drop text.length = c :: behind :=
    List.exists_cons_of_ne_nil (List.drop_eq_nil_iff.not.mpr (Nat.not_le.mpr hlength))
  have hget : destination[text.length]? = some c := by
    rw [← Nat.add_zero text.length, ← List.getElem?_drop, hdrop, List.getElem?_cons_zero]
  rw [hget, Option.some_inj]
  constructor
  · rintro ⟨turns, result, hcopy, hlen, -⟩
    rw [strcpy_eq htext hlength.le, hdrop] at hcopy
    split at hcopy
    · cases hcopy
      have hload := load_of_strlen hlen
      rw [load_of_drop (drop_length_append text (c :: behind)), Except.ok.injEq] at hload
      exact hload
    · cases hcopy
  · rintro rfl
    have hturns := Nat.lt_succ_self text.length
    refine ⟨text.length + 1, text ++ 0 :: behind, ?_, strlen_eq htext hturns,
      strcmp_eq htext hturns, ?_, ?_⟩
    · rw [strcpy_eq htext hlength.le, if_pos hturns, hdrop]
    · have htotal := congrArg List.length hdrop
      rw [List.length_drop] at htotal
      rw [List.length_append]
      omega
    · rw [← List.drop_drop, drop_length_append, ← List.drop_drop, hdrop]

/-! ## `strncpy` -/

theorem strncpyLoop_succ (h : source.drop copied.length = c :: rest) (n : ℕ) :
    strncpyLoop source (n + 1) copied.length (copied ++ c' :: behind) =
      strncpyLoop source n (copied ++ [c]).length (copied ++ [c] ++ behind) := by
  rw [strncpyLoop, load_of_drop h, except_ok_bind, store_append, except_ok_bind, length_copied]

/-- It copies as many bytes as it is told to. -/
theorem strncpyLoop_eq (hsource : n ≤ (source.drop copied.length).length)
    (hlength : n ≤ behind.length) :
    strncpyLoop source n copied.length (copied ++ behind) =
      .ok (copied ++ (source.drop copied.length).take n ++ behind.drop n) := by
  induction n generalizing copied behind with
  | zero =>
    rw [strncpyLoop, List.take_zero, List.append_nil]
    rfl
  | succ n ih =>
    obtain ⟨c, rest, hrest⟩ := List.exists_cons_of_ne_nil
      (List.ne_nil_of_length_pos (Nat.zero_lt_of_lt hsource))
    obtain ⟨c', behind, rfl⟩ := List.exists_cons_of_ne_nil
      (List.ne_nil_of_length_pos (Nat.zero_lt_of_lt hlength))
    have htail := drop_copied hrest
    rw [hrest] at hsource ⊢
    rw [strncpyLoop_succ hrest, ih (by rw [htail]; exact Nat.le_of_succ_le_succ hsource)
      (Nat.le_of_succ_le_succ hlength), htail, List.take_succ_cons, List.append_assoc copied [c]]
    rfl

/-- Behind the end of the source there is nothing to read. -/
theorem strncpyLoop_outside (hsource : (source.drop copied.length).length < n)
    (hlength : n ≤ behind.length) :
    strncpyLoop source n copied.length (copied ++ behind) = .error .outside := by
  induction n generalizing copied behind with
  | zero => exact absurd hsource (Nat.not_lt_zero _)
  | succ n ih =>
    cases hrest : source.drop copied.length with
    | nil => rw [strncpyLoop, load_of_drop_nil hrest, except_error_bind]
    | cons c rest =>
      obtain ⟨c', behind, rfl⟩ := List.exists_cons_of_ne_nil
        (List.ne_nil_of_length_pos (Nat.zero_lt_of_lt hlength))
      have htail := drop_copied hrest
      rw [hrest] at hsource
      rw [strncpyLoop_succ hrest]
      exact ih (by rw [htail]; exact Nat.lt_of_succ_lt_succ hsource)
        (Nat.le_of_succ_le_succ hlength)

/-- The first bytes of a string, zeros behind its text. -/
theorem take_text (h : n ≤ text.length + 1) :
    (text ++ [0]).take n = text.take n ++ List.replicate (n - text.length) (0 : BitVec 8) := by
  rw [List.take_append]
  rcases Nat.lt_or_ge text.length n with hlt | hge
  · rw [show n - text.length = 1 by omega]
    rfl
  · rw [Nat.sub_eq_zero_of_le hge]
    rfl

/-- The copy is right exactly if it does not go on behind the terminator. -/
theorem strncpyRight_iff (hlength : n ≤ destination.length) :
    StrncpyRight destination text n ↔ n ≤ text.length + 1 := by
  have hsource : ((text ++ [0]).drop ([] : List (BitVec 8)).length).length = text.length + 1 := by
    rw [List.length_nil, List.drop_zero, List.length_append, List.length_singleton]
  rcases Nat.lt_or_ge (text.length + 1) n with hlt | hge
  · have hrun : strncpyLoop (text ++ [0]) n ([] : List (BitVec 8)).length ([] ++ destination) =
        .error .outside := strncpyLoop_outside (hsource ▸ hlt) hlength
    refine iff_of_false (fun hright => ?_) (Nat.not_le.mpr hlt)
    rw [StrncpyRight] at hright
    cases hrun.symm.trans hright
  · have hrun : strncpyLoop (text ++ [0]) n ([] : List (BitVec 8)).length ([] ++ destination) =
        .ok ([] ++ (text ++ [0]).take n ++ destination.drop n) :=
      strncpyLoop_eq (hsource ▸ hge) hlength
    refine iff_of_true ?_ hge
    rw [take_text hge] at hrun
    exact hrun

/-- **When a copy is faithful.** `strcpy` needs a zero in the destination where the terminator
belongs, and `strncpy` a length that ends with the source.

`strcpy` copies the text and leaves the byte behind it alone, so the copy ends where a zero stood
before. `strncpy` reads one byte for each that it writes, and behind the terminator there is none.
-/
theorem copies_right_iff {destination text : List (BitVec 8)} (n : ℕ) (htext : ∀ c ∈ text, c ≠ 0)
    (hlength : text.length < destination.length) (hn : n ≤ destination.length) :
    (StrcpyRight destination text ↔ destination[text.length]? = some 0) ∧
      (StrncpyRight destination text n ↔ n ≤ text.length + 1) :=
  ⟨strcpyRight_iff htext hlength, strncpyRight_iff hn⟩

/-- Two letters into a clean destination. -/
theorem copies_right_clean :
    StrcpyRight [0, 0, 0, 0] [0x61, 0x62] ∧ StrncpyRight [0, 0, 0, 0] [0x61, 0x62] 3 := by
  have htext : ∀ c ∈ [0x61, 0x62], c ≠ (0 : BitVec 8) := by decide
  have hlength : [0x61, 0x62].length < [0, 0, 0, (0 : BitVec 8)].length := by decide
  obtain ⟨hcopy, hncopy⟩ := copies_right_iff 3 htext hlength (by decide)
  exact ⟨hcopy.mpr rfl, hncopy.mpr (by decide)⟩

/-- One letter over an older text, and with a longer length. -/
theorem copies_not_right :
    ¬ StrcpyRight [0x78, 0x79, 0x7a, 0] [0x61] ∧ ¬ StrncpyRight [0x78, 0x79, 0x7a, 0] [0x61] 3 := by
  rw [strcpyRight_iff (by decide) (by decide), strncpyRight_iff (by decide)]
  exact ⟨by decide, by decide⟩

end MissyKernel
