import MissyKernel.KiPrintf
import MissyKernel.MemoryObject

/-!
# Where `ki_printf` reads

The pointer of `ki_printf` moves on twice for each `%`, to the letter and behind it, and
nothing looks whether the letter is the zero that ends the format. `kiPrintfScan` is the loop
with that pointer, on a string in memory, and it tells which arguments are left.

Unless a `%` without a letter ends the format, the pointer comes to the zero, one argument is
taken for each recognised letter, in order, and all that is sent comes from the format or
from these arguments.

The condition is on the format alone: `endsInPercent`. Where the format does not end so, no byte
behind the zero is read, the arguments are the ones the letters ask for, and each character that
is sent is accounted for. Where it does, the scan goes on behind the format (`kiPrintfScan_end`),
through whatever stands there.
-/

namespace MissyKernel

/-- The loop of `ki_printf`, with the pointer `str` into the format. -/
def kiPrintfScan (buffer : ℕ → BitVec 8) (object : List (BitVec 8)) :
    ℕ → ℕ → List VaArg → EarlyConsole → Except Fault (List VaArg × EarlyConsole)
  | 0, _, _, _ => .error .turns
  | turns + 1, str, args, con => do
    let c ← load object str
    if c = 0 then pure (args, con)
    else if c = 0x25 then
      let letter ← load object (str + 1)
      match kiConvert buffer letter args con with
      | none => .error .argument
      | some (args, con) => kiPrintfScan buffer object turns (str + 2) args con
    else kiPrintfScan buffer object turns (str + 1) args (con.putc (charOf c))

/-- `ki_printf` on a format in memory. -/
def kiPrintfAt (buffer : ℕ → BitVec 8) (con : EarlyConsole) (object : List (BitVec 8))
    (turns : ℕ) (args : List VaArg) : Except Fault (List VaArg × EarlyConsole) := do
  let (args, con) ← kiPrintfScan buffer object turns 0 args con
  pure (args, { con with term := kiUpdateCursor con.term })

/-! ## What a format asks for -/

/-- The letters that `ki_printf` recognises behind a `%`. -/
def kiLetters : List (BitVec 8) := [0x64, 0x69, 0x62, 0x58, 0x78, 0x73, 0x63]

/-- The recognised conversions of a format, in order. -/
def kiConversions : List (BitVec 8) → List (BitVec 8)
  | [] => []
  | [_] => []
  | c :: letter :: str =>
    if c = 0x25 then
      if letter ∈ kiLetters then letter :: kiConversions str else kiConversions str
    else kiConversions (letter :: str)

/-- A `%` without a letter ends the format. -/
def endsInPercent : List (BitVec 8) → Bool
  | [] => false
  | [c] => c = 0x25
  | c :: letter :: str => if c = 0x25 then endsInPercent str else endsInPercent (letter :: str)

/-- The argument is of the type that the conversion takes. -/
def ArgFits (letter : BitVec 8) : VaArg → Prop
  | .int _ => letter ≠ 0x73
  | .str _ => letter = 0x73

/-- What a conversion shows of its argument. -/
def kiRendering (letter : BitVec 8) : VaArg → List (BitVec 32)
  | .str s => s.bytes.map charOf
  | .int w =>
    if letter = 0x63 then [(w.setWidth 8).setWidth 32]
    else
      let base := if letter = 0x62 then 2 else if letter = 0x58 ∨ letter = 0x78 then 16 else 10
      (numeral base w.toNat).map fun d => charOf (kiLettermap d)

/-- All that a format shows, with the arguments for its conversions. -/
def kiOutput : List (BitVec 8) → List VaArg → List (BitVec 32)
  | [], _ => []
  | [c], _ => [charOf c]
  | c :: letter :: str, args =>
    if c = 0x25 then
      if letter ∈ kiLetters then
        match args with
        | [] => []
        | arg :: args => kiRendering letter arg ++ kiOutput str args
      else charOf letter :: kiOutput str args
    else charOf c :: kiOutput (letter :: str) args

variable {buffer : ℕ → BitVec 8} {object str : List (BitVec 8)} {con : EarlyConsole}
  {args taken : List VaArg} {letter : BitVec 8} {ptr turns : ℕ}

theorem kiOutput_known {arg : VaArg} (h : letter ∈ kiLetters) :
    kiOutput (0x25 :: letter :: str) (arg :: args) =
      kiRendering letter arg ++ kiOutput str args := by
  simp only [kiOutput, h, if_true]

theorem kiOutput_unknown (h : letter ∉ kiLetters) :
    kiOutput (0x25 :: letter :: str) args = charOf letter :: kiOutput str args := by
  simp only [kiOutput, h, if_true, if_false]

theorem kiOutput_literal {c : BitVec 8} (hc : c ≠ 0x25) :
    kiOutput (c :: letter :: str) args = charOf c :: kiOutput (letter :: str) args := by
  simp only [kiOutput, hc, if_false]

/-! ## One conversion -/

theorem handed_putc (con : EarlyConsole) (c : BitVec 32) :
    (con.putc c).handed = con.handed ++ [c] := rfl

theorem kiConvert_unknown (h : letter ∉ kiLetters) (args : List VaArg) (con : EarlyConsole) :
    kiConvert buffer letter args con = some (args, con.putc (charOf letter)) := by
  simp only [kiLetters, List.mem_cons, List.not_mem_nil, or_false, not_or] at h
  simp only [kiConvert, h, or_self, if_false]

/-- A number in the base of a conversion. -/
theorem putNumber_rendering (conv : Conv) (w : BitVec 32) (args : List VaArg) (con : EarlyConsole) :
    ∃ con', (con.putNumber buffer w conv.base).map (args, ·) = some (args, con') ∧
      con'.handed =
        con.handed ++ (numeral conv.base w.toNat).map fun d => charOf (kiLettermap d) := by
  refine ⟨_, congrArg (Option.map (args, ·)) (putNumber_eq con buffer conv w), ?_⟩
  rw [handed_putText, Piece.earlyText, List.map_map]
  rfl

/-- A recognised conversion takes one argument, and shows it. -/
theorem kiConvert_known (buffer : ℕ → BitVec 8) {arg : VaArg} (h : letter ∈ kiLetters)
    (hfits : ArgFits letter arg) (args : List VaArg) (con : EarlyConsole) :
    ∃ con', kiConvert buffer letter (arg :: args) con = some (args, con') ∧
      con'.handed = con.handed ++ kiRendering letter arg := by
  cases arg with
  | str s =>
    obtain rfl : letter = 0x73 := hfits
    exact ⟨_, rfl, handed_putText con s.bytes⟩
  | int w =>
    simp only [kiLetters, List.mem_cons, List.not_mem_nil, or_false] at h
    rcases h with rfl | rfl | rfl | rfl | rfl | rfl | rfl
    · exact putNumber_rendering .d w args con
    · exact putNumber_rendering .i w args con
    · exact putNumber_rendering .b w args con
    · exact putNumber_rendering .X w args con
    · exact putNumber_rendering .x w args con
    · exact absurd rfl hfits
    · exact ⟨_, rfl, rfl⟩

/-! ## The loop -/

theorem kiPrintfScan_nil (h : object.drop ptr = [] ++ [0]) (hturns : 0 < turns) :
    kiPrintfScan buffer object turns ptr args con = .ok (args, con) := by
  obtain ⟨turns, rfl⟩ := Nat.exists_eq_succ_of_ne_zero (Nat.ne_of_gt hturns)
  rw [kiPrintfScan, load_of_drop h, except_ok_bind, if_pos rfl]
  rfl

theorem kiPrintfScan_literal {c : BitVec 8} (hc : c ≠ 0) (hliteral : c ≠ 0x25)
    (h : object.drop ptr = c :: str) :
    kiPrintfScan buffer object (turns + 1) ptr args con =
      kiPrintfScan buffer object turns (ptr + 1) args (con.putc (charOf c)) := by
  rw [kiPrintfScan, load_of_drop h, except_ok_bind, if_neg hc, if_neg hliteral]

theorem kiPrintfScan_percent (h : object.drop ptr = 0x25 :: letter :: str) :
    kiPrintfScan buffer object (turns + 1) ptr args con =
      match kiConvert buffer letter args con with
      | none => .error .argument
      | some (args, con) => kiPrintfScan buffer object turns (ptr + 2) args con := by
  rw [kiPrintfScan, load_of_drop h, except_ok_bind, if_neg (by decide), if_pos rfl,
    load_of_drop (drop_succ_of_drop h), except_ok_bind]

/-- With the zero for a letter, the loop goes on behind it. -/
theorem kiPrintfScan_end (h : object.drop ptr = [0x25] ++ [0]) (hturns : 1 < turns) :
    kiPrintfScan buffer object turns ptr args con = .error .outside := by
  obtain ⟨turns, rfl⟩ := Nat.exists_eq_add_of_le' (Nat.succ_le_of_lt hturns)
  have hconvert : kiConvert buffer 0 args con = some (args, con.putc (charOf 0)) := rfl
  have hbehind : object.drop (ptr + 2) = [] := drop_succ_of_drop (drop_succ_of_drop h)
  rw [kiPrintfScan_percent h, hconvert]
  dsimp only
  rw [kiPrintfScan, load_of_drop_nil hbehind, except_error_bind]

/-- A scan of a format that ends in a `%` reads past its end; of another one it returns with
these arguments left, and has sent the output. -/
def ScanSends (endsInPercent : Bool) (scan : Except Fault (List VaArg × EarlyConsole))
    (args : List VaArg) (con : EarlyConsole) (output : List (BitVec 32)) : Prop :=
  (endsInPercent = true → scan = .error .outside) ∧
    (endsInPercent = false →
      ∃ con', scan = .ok (args, con') ∧ con'.handed = con.handed ++ output)

/-- What was sent before the scan went on belongs to the output. -/
theorem ScanSends.after {past : Bool} {scan : Except Fault (List VaArg × EarlyConsole)}
    {con₁ : EarlyConsole} {front output : List (BitVec 32)}
    (h : ScanSends past scan args con₁ output) (hfront : con₁.handed = con.handed ++ front) :
    ScanSends past scan args con (front ++ output) := by
  obtain ⟨hpast, hsent⟩ := h
  refine ⟨hpast, fun hend => ?_⟩
  obtain ⟨con', hscan, hhanded⟩ := hsent hend
  refine ⟨con', hscan, ?_⟩
  rw [hhanded, hfront, List.append_assoc]

/-- With the arguments that its conversions take, a format is shown, or read past its end. -/
theorem kiPrintfScan_run (buffer : ℕ → BitVec 8) (args : List VaArg) (con : EarlyConsole)
    (hstr : ∀ c ∈ str, c ≠ 0) (h : object.drop ptr = str ++ [0]) (hturns : str.length < turns)
    (htaken : List.Forall₂ ArgFits (kiConversions str) taken) :
    ScanSends (endsInPercent str) (kiPrintfScan buffer object turns ptr (taken ++ args) con) args
      con (kiOutput str taken) := by
  fun_induction endsInPercent str generalizing ptr turns taken con with
  | case1 =>
    cases htaken
    refine ⟨fun h => (nomatch h), fun _ => ⟨con, kiPrintfScan_nil h hturns, ?_⟩⟩
    exact (List.append_nil _).symm
  | case2 c =>
    cases htaken
    rw [List.length_singleton] at hturns
    by_cases hc : c = 0x25
    · subst hc
      exact ⟨fun _ => kiPrintfScan_end h hturns, fun h => nomatch h⟩
    · obtain ⟨turns, rfl⟩ := Nat.exists_eq_add_of_le' (Nat.le_of_lt hturns)
      rw [kiPrintfScan_literal (hstr c List.mem_cons_self) hc h,
        kiPrintfScan_nil (drop_succ_of_drop h) (Nat.lt_of_succ_lt_succ hturns)]
      exact ⟨fun h => absurd (of_decide_eq_true h) hc, fun _ => ⟨_, rfl, rfl⟩⟩
  | case3 letter str ih =>
    rw [List.length_cons, List.length_cons] at hturns
    obtain ⟨turns, rfl⟩ := Nat.exists_eq_add_of_le' (show 1 ≤ turns by omega)
    have hrest := (List.forall_mem_cons.mp (List.forall_mem_cons.mp hstr).2).2
    have hdrop : object.drop (ptr + 2) = str ++ [0] := drop_succ_of_drop (drop_succ_of_drop h)
    have hlength : str.length < turns := by omega
    rw [kiPrintfScan_percent h]
    rw [kiConversions, if_pos rfl] at htaken
    by_cases hletter : letter ∈ kiLetters
    · rw [if_pos hletter, List.forall₂_cons_left_iff] at htaken
      obtain ⟨arg, taken, hfits, htaken, rfl⟩ := htaken
      obtain ⟨con₁, hconvert, hhanded⟩ :=
        kiConvert_known buffer hletter hfits (taken ++ args) con
      rw [List.cons_append, hconvert, kiOutput_known hletter]
      exact (ih con₁ hrest hdrop hlength htaken).after hhanded
    · rw [if_neg hletter] at htaken
      rw [kiConvert_unknown hletter, kiOutput_unknown hletter]
      exact (ih _ hrest hdrop hlength htaken).after (handed_putc con (charOf letter))
  | case4 c letter str hc ih =>
    rw [List.length_cons] at hturns
    obtain ⟨turns, rfl⟩ := Nat.exists_eq_add_of_le' (show 1 ≤ turns by omega)
    obtain ⟨hnonzero, hrest⟩ := List.forall_mem_cons.mp hstr
    rw [kiConversions, if_neg hc] at htaken
    rw [kiPrintfScan_literal hnonzero hc h, kiOutput_literal hc]
    have hlength : (letter :: str).length < turns := by omega
    exact (ih _ hrest (drop_succ_of_drop h) hlength htaken).after (handed_putc con (charOf c))

/-- With any arguments: the scan is the loop over what is left of the format, and apart from an
argument that is not there only the end of the format makes it fail. -/
theorem kiPrintfScan_loop (buffer : ℕ → BitVec 8) (args : List VaArg) (con : EarlyConsole)
    (hstr : ∀ c ∈ str, c ≠ 0) (h : object.drop ptr = str ++ [0]) (hturns : str.length < turns) :
    (kiPrintfScan buffer object turns ptr args con).toOption.map Prod.snd =
        kiPrintfLoop buffer str args con ∧
      ∀ fault, kiPrintfScan buffer object turns ptr args con = .error fault →
        fault = .argument ∨ fault = .outside ∧ endsInPercent str = true := by
  fun_induction kiPrintfLoop buffer str args con generalizing ptr turns
  case case1 args con =>
    rw [kiPrintfScan_nil h hturns]
    exact ⟨rfl, fun fault h => nomatch h⟩
  case case2 args con =>
    rw [kiPrintfScan_end h hturns]
    exact ⟨rfl, fun fault h => .inr ⟨(Except.error.inj h).symm, rfl⟩⟩
  case case3 c args con hc ih =>
    rw [List.length_singleton] at hturns
    obtain ⟨turns, rfl⟩ := Nat.exists_eq_add_of_le' (Nat.le_of_lt hturns)
    rw [kiPrintfScan_literal (hstr c List.mem_cons_self) hc h]
    obtain ⟨hloop, hfault⟩ :=
      ih (List.forall_mem_nil _) (drop_succ_of_drop h) (Nat.lt_of_succ_lt_succ hturns)
    refine ⟨hloop, fun fault h => (hfault fault h).imp id fun h => ?_⟩
    exact nomatch h.2
  case case4 letter str args con hconvert =>
    obtain ⟨turns, rfl⟩ := Nat.exists_eq_succ_of_ne_zero (Nat.ne_of_gt (Nat.zero_lt_of_lt hturns))
    rw [kiPrintfScan_percent h, hconvert]
    exact ⟨rfl, fun fault h => .inl (Except.error.inj h).symm⟩
  case case5 letter str args con args' con' hconvert ih =>
    rw [List.length_cons, List.length_cons] at hturns
    obtain ⟨turns, rfl⟩ := Nat.exists_eq_add_of_le' (show 1 ≤ turns by omega)
    rw [kiPrintfScan_percent h, hconvert]
    exact ih (List.forall_mem_cons.mp (List.forall_mem_cons.mp hstr).2).2
      (drop_succ_of_drop (drop_succ_of_drop h)) (show str.length < turns by omega)
  case case6 c letter str args con hc ih =>
    rw [List.length_cons] at hturns
    obtain ⟨turns, rfl⟩ := Nat.exists_eq_add_of_le' (show 1 ≤ turns by omega)
    obtain ⟨hnonzero, hrest⟩ := List.forall_mem_cons.mp hstr
    rw [kiPrintfScan_literal hnonzero hc h, endsInPercent, if_neg hc]
    exact ih hrest (drop_succ_of_drop h) (show (letter :: str).length < turns by omega)

/-! ## The call -/

/-- A call of `ki_printf` stays within its format: it returns without a read behind the zero,
with one argument taken for each recognised conversion, in order, and what it sends comes from
the format or from the rendering of one of these arguments. -/
def StaysInFormat (buffer : ℕ → BitVec 8) (fmt : CString) (args : List VaArg)
    (con : EarlyConsole) : Prop :=
  ∃ taken args' con' sent,
    (∀ turns, fmt.bytes.length < turns →
      kiPrintfAt buffer con fmt.object turns args = .ok (args', con')) ∧
    args = taken ++ args' ∧
    List.Forall₂ ArgFits (kiConversions fmt.bytes) taken ∧
    con'.handed = con.handed ++ sent ∧
    ∀ c ∈ sent, (∃ b ∈ fmt.bytes, c = charOf b) ∨
      ∃ conversion ∈ (kiConversions fmt.bytes).zip taken,
        c ∈ kiRendering conversion.1 conversion.2

/-- Where the characters of the output come from. -/
theorem mem_kiOutput {c : BitVec 32} (hc : c ∈ kiOutput str taken) :
    (∃ b ∈ str, c = charOf b) ∨
      ∃ conversion ∈ (kiConversions str).zip taken, c ∈ kiRendering conversion.1 conversion.2 := by
  fun_induction kiOutput str taken with
  | case1 => exact (List.not_mem_nil hc).elim
  | case2 b => exact .inl ⟨b, List.mem_cons_self, List.mem_singleton.mp hc⟩
  | case3 => exact (List.not_mem_nil hc).elim
  | case4 letter str hletter arg args ih =>
    rw [kiConversions, if_pos rfl, if_pos hletter, List.zip_cons_cons]
    rcases List.mem_append.mp hc with hc | hc
    · exact .inr ⟨(letter, arg), List.mem_cons_self, hc⟩
    · refine (ih hc).imp ?_ ?_
      · rintro ⟨b, hb, rfl⟩
        exact ⟨b, List.mem_cons_of_mem _ (List.mem_cons_of_mem _ hb), rfl⟩
      · rintro ⟨conversion, hmem, hshown⟩
        exact ⟨conversion, List.mem_cons_of_mem _ hmem, hshown⟩
  | case5 letter str args hletter ih =>
    rw [kiConversions, if_pos rfl, if_neg hletter]
    rcases List.mem_cons.mp hc with rfl | hc
    · exact .inl ⟨letter, List.mem_cons_of_mem _ List.mem_cons_self, rfl⟩
    · refine (ih hc).imp_left ?_
      rintro ⟨b, hb, rfl⟩
      exact ⟨b, List.mem_cons_of_mem _ (List.mem_cons_of_mem _ hb), rfl⟩
  | case6 b letter str args hb ih =>
    rw [kiConversions, if_neg hb]
    rcases List.mem_cons.mp hc with rfl | hc
    · exact .inl ⟨b, List.mem_cons_self, rfl⟩
    · refine (ih hc).imp_left ?_
      rintro ⟨b, hb, rfl⟩
      exact ⟨b, List.mem_cons_of_mem _ hb, rfl⟩

/-- The call of `kiPrintf` is the one on the format in memory. -/
theorem kiPrintfAt_eq (buffer : ℕ → BitVec 8) (con : EarlyConsole) (fmt : CString)
    (args : List VaArg) (hturns : fmt.bytes.length < turns) :
    (kiPrintfAt buffer con fmt.object turns args).toOption.map Prod.snd =
      kiPrintf buffer con fmt.bytes args := by
  rw [kiPrintf, ← (kiPrintfScan_loop buffer args con fmt.noNul fmt.drop_object hturns).1,
    kiPrintfAt]
  cases kiPrintfScan buffer fmt.object turns 0 args con <;> rfl

/-- **Where `ki_printf` stays in its format.** With any arguments, the only read outside an object
comes from a format that ends in a `%` without a letter; and with arguments that fit the letters it
stays in the format exactly when it does not end so.

The pointer steps over the letter without looking at it, so that behind a lone `%` it is past the
zero. By induction on the format the loop in memory is the loop on its bytes
(`kiPrintfScan_loop`); only at a lone `%` is there a turn behind the zero (`kiPrintfScan_end`). -/
theorem ki_printf_stays_iff (buffer : ℕ → BitVec 8) (con : EarlyConsole) (fmt : CString) :
    (∀ args turns fault, fmt.bytes.length < turns →
      kiPrintfAt buffer con fmt.object turns args = .error fault →
      fault = .argument ∨ fault = .outside ∧ endsInPercent fmt.bytes = true) ∧
    ∀ taken args, List.Forall₂ ArgFits (kiConversions fmt.bytes) taken →
      (StaysInFormat buffer fmt (taken ++ args) con ↔ endsInPercent fmt.bytes = false) := by
  constructor
  · intro args turns fault hturns h
    refine (kiPrintfScan_loop buffer args con fmt.noNul fmt.drop_object hturns).2 fault ?_
    rw [kiPrintfAt] at h
    cases hscan : kiPrintfScan buffer fmt.object turns 0 args con with
    | error fault' => rwa [hscan] at h
    | ok result =>
      rw [hscan] at h
      exact nomatch h
  · intro taken args htaken
    have hrun := fun turns (hturns : fmt.bytes.length < turns) =>
      kiPrintfScan_run buffer args con fmt.noNul fmt.drop_object hturns htaken
    constructor
    · rintro ⟨_, _, _, _, hreturns, -⟩
      by_contra hend
      have hreturn := hreturns _ (Nat.lt_succ_self _)
      rw [kiPrintfAt, (hrun _ (Nat.lt_succ_self _)).1 (Bool.eq_true_of_not_eq_false hend)]
        at hreturn
      exact nomatch hreturn
    · intro hend
      obtain ⟨con', hscan, hhanded⟩ := (hrun _ (Nat.lt_succ_self _)).2 hend
      refine ⟨taken, args, { con' with term := kiUpdateCursor con'.term }, _,
        fun turns hturns => ?_, rfl, htaken, hhanded, fun c hc => mem_kiOutput hc⟩
      -- the console does not depend on the number of turns
      obtain ⟨con'', hscan', -⟩ := (hrun turns hturns).2 hend
      have hloop := fun turns (hturns : fmt.bytes.length < turns) =>
        (kiPrintfScan_loop buffer (taken ++ args) con fmt.noNul fmt.drop_object hturns).1
      have hsame := (hloop _ (Nat.lt_succ_self _)).trans (hloop turns hturns).symm
      rw [hscan, hscan'] at hsame
      obtain rfl : con' = con'' := Option.some.inj hsame
      rw [kiPrintfAt, hscan']
      rfl

/-- `"%d %%%q"`, with one argument too many. -/
theorem ki_printf_stays_seven :
    StaysInFormat (fun _ => 0) ⟨[0x25, 0x64, 0x20, 0x25, 0x25, 0x25, 0x71], by decide⟩
      ([.int 7] ++ [.int 9]) ⟨.start (fun _ => 0) 0x0f, [], 0⟩ := by
  have hfits : List.Forall₂ ArgFits
      (kiConversions [0x25, 0x64, 0x20, 0x25, 0x25, 0x25, 0x71]) [.int 7] :=
    .cons (show (0x64 : BitVec 8) ≠ 0x73 by decide) .nil
  exact ((ki_printf_stays_iff _ _ ⟨[0x25, 0x64, 0x20, 0x25, 0x25, 0x25, 0x71], by decide⟩).2
    _ _ hfits).mpr (by decide)

/-- `"%"` is read past its end. -/
theorem percent_read_past_end :
    kiPrintfAt (fun _ => 0) ⟨.start (fun _ => 0) 0x0f, [], 0⟩ [0x25, 0] 3 [] = .error .outside ∧
    ¬ StaysInFormat (fun _ => 0) ⟨[0x25], by decide⟩ [] ⟨.start (fun _ => 0) 0x0f, [], 0⟩ := by
  have hscan : ∀ turns, 1 < turns → kiPrintfAt (fun _ => 0) ⟨.start (fun _ => 0) 0x0f, [], 0⟩
      (⟨[0x25], by decide⟩ : CString).object turns [] = .error .outside := by
    intro turns hturns
    rw [kiPrintfAt, kiPrintfScan_end (CString.drop_object _) hturns, except_error_bind]
  refine ⟨hscan 3 (by decide), ?_⟩
  rintro ⟨_, _, _, _, hreturns, -⟩
  exact nomatch (hscan 2 (by decide)).symm.trans (hreturns 2 (by decide))

end MissyKernel
