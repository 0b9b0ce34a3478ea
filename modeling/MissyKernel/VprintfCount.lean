import Mathlib.Data.List.TakeWhile
import MissyKernel.MemoryObject
import MissyKernel.VprintfText

/-!
# `vprintf` counts what it prints

`vprintf` sees its format through a pointer. `vprintfScan` is the loop with that pointer, on
a string in memory; it never gets behind the zero, and does what `vprintfLoop` does with the
bytes that are left.

`Segments` are the pieces of the output, one for each turn of the loop, whatever the format
is. A call prints the ones there is room for, and its result is their length, or that there
are others, unless `print` finds the byte `0xff` in one of them.

Nothing is assumed about the format here but that the arguments are there and of the right kind.
`vprintfScan_eq` connects the loop with the pointer to the loop of `Vprintf`, and
`vprintfScan_fault` says when a read falls outside. Where the output is longer than `INT_MAX`, the
pieces that fit are printed, and the call reports `EOVERFLOW`.
-/

namespace MissyKernel

/-- `print`, on a text that it reads through a pointer. -/
def printFrom (object : List (BitVec 8)) : ℕ → ℕ → Console → Except Fault (Bool × Console)
  | 0, _, con => pure (true, con)
  | length + 1, str, con => do
    let c ← load object str
    let (r, con) := putchar con (charOf c)
    if r = -1 then pure (false, con) else printFrom object length (str + 1) con

/-- `emit`, for a part of the format. -/
def emitFrom (object : List (BitVec 8)) (con : Console) (written fmt amount : ℕ) :
    Except Fault (Except Console (ℕ × Console)) :=
  if 2 ^ 31 - 1 - written < amount then pure (.error { con with errno := 4 })
  else do
    match ← printFrom object amount fmt con with
    | (false, con) => pure (.error con)
    | (true, con) => pure (.ok (written + amount, con))

/-- `fmt[0] != '%' || fmt[1] == '%'`, where the first byte has been read; the second is not
unless the first is a `%`. -/
def literalAt (object : List (BitVec 8)) (fmt : ℕ) (c : BitVec 8) : Except Fault Bool :=
  if c ≠ 0x25 then pure true
  else do
    let next ← load object (fmt + 1)
    pure (next = 0x25)

/-- The loop of `vprintf`, with the pointer `fmt` into the format. -/
def vprintfScan (buffer : ℕ → BitVec 8) (object : List (BitVec 8)) :
    ℕ → ℕ → List VaArg → ℕ → Console → Except Fault (ℤ × Console)
  | 0, _, _, _, _ => .error .turns
  | turns + 1, fmt, args, written, con => do
    let c ← load object fmt
    if c = 0 then pure (written, con)
    else
      if ← literalAt object fmt c then
        let fmt := if c = 0x25 then fmt + 1 else fmt
        let amount ← scanWhile (fun c => c ≠ 0 && c ≠ 0x25) object fmt turns 1
        match ← emitFrom object con written fmt amount with
        | .error con => pure (-1, con)
        | .ok (written, con) => vprintfScan buffer object turns (fmt + amount) args written con
      else
        let letter ← load object (fmt + 1)
        match convert con.errno buffer (some letter) args with
        | .undefined => .error .argument
        | .text text errno args =>
          match emit { con with errno := errno } written text with
          | .error con => pure (-1, con)
          | .ok (written, con) => vprintfScan buffer object turns (fmt + 2) args written con
        | .unknown =>
          -- `strlen`
          let length ← scanWhile (· ≠ 0) object fmt (turns + 1) 0
          match ← emitFrom object con written fmt length with
          | .error con => pure (-1, con)
          | .ok (written, con) => vprintfScan buffer object turns (fmt + length) args written con

variable {con : Console} {written fmt : ℕ} {object str text rest : List (BitVec 8)}
  {args : List VaArg} {buffer : ℕ → BitVec 8} {errno : BitVec 32}

/-! ## Reading the format -/

theorem printFrom_eq (h : object.drop fmt = text ++ rest) (con : Console) :
    printFrom object text.length fmt con = .ok (print con text) := by
  induction text generalizing fmt con with
  | nil => rfl
  | cons c text ih =>
    rw [List.cons_append] at h
    rw [List.length_cons, printFrom, load_of_drop h, except_ok_bind, print]
    dsimp only
    by_cases hr : (putchar con (charOf c)).1 = -1
    · rw [if_pos hr, if_pos hr]
      rfl
    · rw [if_neg hr, if_neg hr]
      exact ih (drop_succ_of_drop h) _

theorem emitFrom_eq (h : object.drop fmt = text ++ rest) (con : Console) (written : ℕ) :
    emitFrom object con written fmt text.length = .ok (emit con written text) := by
  rw [emitFrom, emit]
  by_cases hover : 2 ^ 31 - 1 - written < text.length
  · rw [if_pos hover, if_pos hover]
    rfl
  · rw [if_neg hover, if_neg hover, printFrom_eq h, except_ok_bind]
    obtain ⟨con', hprint, -, -⟩ := print_eq con text
    rw [hprint]
    cases decide (0xff ∉ text) <;> rfl

/-- The byte behind the pointer, or the zero. -/
theorem load_next (h : object.drop fmt = rest ++ [0]) :
    load object fmt = .ok (rest.head?.getD 0) := by
  cases rest with
  | nil => exact load_of_drop h
  | cons c rest => exact load_of_drop h

/-- The zero is no letter of a conversion either. -/
theorem convert_getD (errno : BitVec 32) (buffer : ℕ → BitVec 8) (letter : Option (BitVec 8))
    (args : List VaArg) :
    convert errno buffer (some (letter.getD 0)) args = convert errno buffer letter args := by
  cases letter <;> rfl

/-- What the loop answers, with the faults. -/
def answered : Option (ℤ × Console) → Except Fault (ℤ × Console)
  | none => .error .argument
  | some r => .ok r

theorem literalAt_eq {c : BitVec 8} (h : object.drop fmt = c :: (rest ++ [0])) :
    literalAt object fmt c = .ok (decide (c ≠ 0x25 ∨ rest.head? = some 0x25)) := by
  rw [literalAt]
  by_cases hc : c = 0x25
  · have hnext : rest.head?.getD 0 = 0x25 ↔ rest.head? = some 0x25 := by
      cases rest.head? with
      | none => exact iff_of_false (by decide) (Option.some_ne_none _).symm
      | some d => exact Option.some_inj.symm
    rw [if_neg (not_not_intro hc), load_next (drop_succ_of_drop h), except_ok_bind]
    simp only [hc, ne_eq, not_true_eq_false, false_or, hnext]
    rfl
  · rw [if_pos hc]
    simp only [hc, ne_eq, not_false_eq_true, true_or, decide_true]
    rfl

/-- Where a run of literal text begins: an escape begins it with its second byte. -/
theorem exists_run {c : BitVec 8} (h : object.drop fmt = c :: (rest ++ [0]))
    (hrest : ∀ a ∈ rest, a ≠ 0) (hbranch : c ≠ 0x25 ∨ rest.head? = some 0x25) :
    ∃ d tail, (if c = 0x25 then rest else c :: rest) = d :: tail ∧
      object.drop (if c = 0x25 then fmt + 1 else fmt) = d :: tail ++ [0] ∧
      (∀ a ∈ tail, a ≠ 0) ∧ tail.length ≤ rest.length := by
  by_cases hpercent : c = 0x25
  · have hhead : rest.head? = some 0x25 := hbranch.resolve_left (not_not_intro hpercent)
    obtain ⟨tail, rfl⟩ := List.head?_eq_some_iff.mp hhead
    rw [if_pos hpercent, if_pos hpercent]
    exact ⟨0x25, tail, rfl, drop_succ_of_drop h, (List.forall_mem_cons.mp hrest).2, Nat.le_succ _⟩
  · rw [if_neg hpercent, if_neg hpercent]
    exact ⟨c, rest, rfl, h, hrest, le_refl _⟩

/-- A run of literal text: how long it is, what is printed of it, and where it ends. -/
theorem read_run {d : BitVec 8} {tail : List (BitVec 8)} {turns amount : ℕ}
    (hnonzero : ∀ c ∈ tail, c ≠ 0) (h : object.drop fmt = d :: tail ++ [0])
    (hturns : tail.length < turns) (hamount : amount = 1 + (tail.takeWhile (· ≠ 0x25)).length) :
    scanWhile (fun c => c ≠ 0 && c ≠ 0x25) object fmt turns 1 = .ok amount ∧
      (∀ con written, emitFrom object con written fmt amount =
        .ok (emit con written ((d :: tail).take amount))) ∧
      object.drop (fmt + amount) = (d :: tail).drop amount ++ [0] := by
  have hle := (List.takeWhile_sublist (l := tail) (· ≠ 0x25)).length_le
  have hlength : ((d :: tail).take amount).length = amount := by
    rw [List.length_take, List.length_cons]
    omega
  refine ⟨?_, fun con written => ?_, ?_⟩
  · rw [hamount]
    refine scanWhile_eq rfl (fun a ha => ?_) (drop_succ_of_drop h) hturns
    rw [decide_eq_true (hnonzero a ha), Bool.true_and]
  · have hsplit : object.drop fmt =
        (d :: tail).take amount ++ ((d :: tail).drop amount ++ [0]) := by
      rw [h, ← List.append_assoc, List.take_append_drop]
    have hemit := emitFrom_eq hsplit con written
    rwa [hlength] at hemit
  · rw [← List.drop_drop, h, List.drop_append_of_le_length]
    rw [List.length_cons]
    omega

/-- Behind a `%` that is no conversion: `strlen` goes to the end of the format, and all that is
left is printed. -/
theorem read_rest {c : BitVec 8} {turns : ℕ} (hstr : ∀ a ∈ c :: rest, a ≠ 0)
    (h : object.drop fmt = c :: (rest ++ [0])) (hturns : rest.length < turns) :
    scanWhile (· ≠ 0) object fmt (turns + 1) 0 = .ok (c :: rest).length ∧
      object.drop (fmt + (c :: rest).length) = [] ++ [0] := by
  constructor
  · have hscan : scanWhile (· ≠ 0) object fmt (turns + 1) 0 =
        .ok (0 + ((c :: rest).takeWhile fun _ => true).length) :=
      scanWhile_eq rfl (fun a ha => decide_eq_true (hstr a ha)) h (Nat.succ_lt_succ hturns)
    rw [hscan, Nat.zero_add, List.takeWhile_eq_self_iff.mpr fun _ _ => rfl]
  · rw [← List.drop_drop, h, List.length_cons, List.drop_succ_cons, List.drop_left]
    rfl

/-- The end of a branch. -/
theorem answered_emit (result : Except Console (ℕ × Console))
    {scan : ℕ → Console → Except Fault (ℤ × Console)} {loop : ℕ → Console → Option (ℤ × Console)}
    (h : ∀ written con, scan written con = answered (loop written con)) :
    (match result with
      | .error con => pure (-1, con)
      | .ok (written, con) => scan written con) =
      answered (match result with
        | .error con => some (-1, con)
        | .ok (written, con) => loop written con) := by
  cases result with
  | error con => rfl
  | ok result => exact h result.1 result.2

/-- The loop with the pointer is the loop on what is left of the format. -/
theorem vprintfScan_eq {turns : ℕ} (hstr : ∀ c ∈ str, c ≠ 0)
    (h : object.drop fmt = str ++ [0]) (hturns : str.length < turns) :
    vprintfScan buffer object turns fmt args written con =
      answered (vprintfLoop buffer str args written con) := by
  induction turns generalizing str fmt args written con with
  | zero => exact absurd hturns (Nat.not_lt_zero _)
  | succ turns ih =>
    cases str with
    | nil =>
      rw [vprintfScan, load_of_drop h, except_ok_bind, if_pos rfl, vprintfLoop]
      rfl
    | cons c rest =>
      obtain ⟨hc, hrest⟩ := List.forall_mem_cons.mp hstr
      rw [List.length_cons] at hturns
      rw [List.cons_append] at h
      have htail := drop_succ_of_drop h
      rw [vprintfScan, load_of_drop h, except_ok_bind, if_neg hc]
      dsimp only
      rw [literalAt_eq h, except_ok_bind, vprintfLoop]
      by_cases hbranch : c ≠ 0x25 ∨ rest.head? = some 0x25
      · rw [if_pos hbranch, if_pos (decide_eq_true hbranch)]
        obtain ⟨d, tail, hrun, hdrop, hnonzero, hlength⟩ := exists_run h hrest hbranch
        obtain ⟨hscan, hemit, hend⟩ :=
          read_run hnonzero hdrop (show tail.length < turns by omega) rfl
        rw [hscan, except_ok_bind, hemit, except_ok_bind, hrun]
        refine answered_emit _ fun written con => ih (fun a ha => ?_) hend ?_
        · rw [Nat.add_comm, List.drop_succ_cons] at ha
          exact hnonzero a (List.mem_of_mem_drop ha)
        · rw [List.length_drop, List.length_cons]
          omega
      · rw [if_neg hbranch, if_neg (by rw [decide_eq_true_eq]; exact hbranch), load_next htail,
          except_ok_bind, convert_getD]
        cases hconvert : convert con.errno buffer rest.head? args with
        | undefined => rfl
        | text text errno args =>
          refine answered_emit _ fun written con => ?_
          cases rest with
          | nil => cases hconvert
          | cons letter rest =>
            rw [List.length_cons] at hturns
            exact ih (List.forall_mem_cons.mp hrest).2 (drop_succ_of_drop htail)
              (show rest.length < turns by omega)
        | unknown =>
          dsimp only
          obtain ⟨hscan, hend⟩ := read_rest hstr h (Nat.lt_of_succ_lt_succ hturns)
          rw [hscan, except_ok_bind, emitFrom_eq h, except_ok_bind]
          refine answered_emit _ fun written con => ?_
          rw [ih (List.forall_mem_nil _) hend (by rw [List.length_nil]; omega), vprintfLoop]

/-! ## What is printed piece by piece -/

/-- The letters that `vprintf` knows behind a `%`. -/
def knownLetters : List (BitVec 8) :=
  [0x25, 0x63, 0x73, 0x78, 0x58, 0x6f, 0x75, 0x64, 0x69, 0x62]

/-- What a format prints, one piece for each turn of the loop. Behind a `%` that is no
conversion, and at one that ends the format, the rest is printed as it stands. -/
inductive Segments : List (BitVec 8) → List VaArg → List (List (BitVec 8)) → Prop
  /-- the end of the format -/
  | nil (args : List VaArg) : Segments [] args []
  /-- literal text -/
  | run {c : BitVec 8} {rest : List (BitVec 8)} {args : List VaArg}
      {segments : List (List (BitVec 8))} (hc : c ≠ 0x25)
      (h : Segments (rest.dropWhile (· ≠ 0x25)) args segments) :
      Segments (c :: rest) args ((c :: rest.takeWhile (· ≠ 0x25)) :: segments)
  /-- literal text behind a `%%` -/
  | escape {rest : List (BitVec 8)} {args : List VaArg} {segments : List (List (BitVec 8))}
      (h : Segments (rest.dropWhile (· ≠ 0x25)) args segments) :
      Segments (0x25 :: 0x25 :: rest) args ((0x25 :: rest.takeWhile (· ≠ 0x25)) :: segments)
  /-- a conversion, which takes an argument -/
  | conversion {rest : List (BitVec 8)} {args : List VaArg} {segments : List (List (BitVec 8))}
      (p : Piece) (hp : p.args ≠ []) (h : Segments rest args segments) :
      Segments (p.spelling ++ rest) (p.args ++ args) (p.text :: segments)
  /-- no conversion -/
  | unknown {rest : List (BitVec 8)} (args : List VaArg)
      (hunknown : ∀ letter ∈ rest.head?, letter ∉ knownLetters) :
      Segments (0x25 :: rest) args [0x25 :: rest]

/-- The complete pieces that come before the first one there is no room for. -/
def thatFit (room : ℕ) : List (List (BitVec 8)) → List (List (BitVec 8))
  | [] => []
  | segment :: segments =>
    if segment.length ≤ room then segment :: thatFit (room - segment.length) segments else []

variable {segment : List (BitVec 8)} {segments : List (List (BitVec 8))}

theorem convert_unknown {letter : Option (BitVec 8)} (h : ∀ c ∈ letter, c ∉ knownLetters) :
    convert errno buffer letter args = .unknown := by
  cases letter with
  | none => rfl
  | some c =>
    have hc := h c rfl
    simp only [knownLetters, List.mem_cons, List.not_mem_nil, or_false, not_or] at hc
    simp only [convert, Option.some.injEq, hc, or_self, if_false]

theorem take_run (c : BitVec 8) (rest : List (BitVec 8)) :
    (c :: rest).take (1 + (rest.takeWhile (· ≠ 0x25)).length) =
        c :: rest.takeWhile (· ≠ 0x25) ∧
      (c :: rest).drop (1 + (rest.takeWhile (· ≠ 0x25)).length) =
        rest.dropWhile (· ≠ 0x25) := by
  rw [Nat.add_comm, List.take_succ_cons, List.drop_succ_cons]
  have hsplit : rest = rest.takeWhile (· ≠ 0x25) ++ rest.dropWhile (· ≠ 0x25) :=
    List.takeWhile_append_dropWhile.symm
  constructor
  · rw [← List.prefix_iff_eq_take.mp (List.takeWhile_prefix _)]
  · calc rest.drop (rest.takeWhile (· ≠ 0x25)).length
        = (rest.takeWhile (· ≠ 0x25) ++ rest.dropWhile (· ≠ 0x25)).drop
            (rest.takeWhile (· ≠ 0x25)).length := by rw [← hsplit]
      _ = rest.dropWhile (· ≠ 0x25) := List.drop_left

theorem exists_conversion {letter : BitVec 8} (h : letter ∈ knownLetters) (hne : letter ≠ 0x25) :
    ∃ p : Piece, p.args ≠ [] ∧ p.spelling = [0x25, letter] := by
  simp only [knownLetters, List.mem_cons, List.not_mem_nil, or_false, hne, false_or] at h
  rcases h with rfl | rfl | rfl | rfl | rfl | rfl | rfl | rfl | rfl
  · exact ⟨.char 0, List.cons_ne_nil _ _, rfl⟩
  · exact ⟨.string ⟨[], List.forall_mem_nil _⟩, List.cons_ne_nil _ _, rfl⟩
  · exact ⟨.number .x 0, List.cons_ne_nil _ _, rfl⟩
  · exact ⟨.number .X 0, List.cons_ne_nil _ _, rfl⟩
  · exact ⟨.number .o 0, List.cons_ne_nil _ _, rfl⟩
  · exact ⟨.number .u 0, List.cons_ne_nil _ _, rfl⟩
  · exact ⟨.number .d 0, List.cons_ne_nil _ _, rfl⟩
  · exact ⟨.number .i 0, List.cons_ne_nil _ _, rfl⟩
  · exact ⟨.number .b 0, List.cons_ne_nil _ _, rfl⟩

/-- Every format prints something, with the right arguments. -/
theorem exists_segments (str : List (BitVec 8)) : ∃ args segments, Segments str args segments := by
  induction hlength : str.length using Nat.strong_induction_on generalizing str with
  | _ n ih =>
    subst hlength
    have hshorter : ∀ l : List (BitVec 8), (l.dropWhile (· ≠ 0x25)).length ≤ l.length :=
      fun l => (List.dropWhile_sublist _).length_le
    cases str with
    | nil => exact ⟨[], [], .nil []⟩
    | cons c rest =>
      by_cases hc : c = 0x25
      · subst hc
        cases rest with
        | nil => exact ⟨[], _, .unknown [] fun _ h => nomatch h⟩
        | cons letter rest =>
          rw [List.length_cons, List.length_cons] at ih
          by_cases hletter : letter ∈ knownLetters
          · by_cases hescape : letter = 0x25
            · subst hescape
              have hrest := hshorter rest
              obtain ⟨args, segments, h⟩ := ih _ (by omega) (rest.dropWhile (· ≠ 0x25)) rfl
              exact ⟨args, _, .escape h⟩
            · obtain ⟨p, hp, hspelling⟩ := exists_conversion hletter hescape
              obtain ⟨args, segments, h⟩ := ih _ (by omega) rest rfl
              refine ⟨p.args ++ args, p.text :: segments, ?_⟩
              have hpiece := Segments.conversion p hp h
              rwa [hspelling] at hpiece
          · refine ⟨[], _, .unknown [] fun l hl => ?_⟩
            rwa [← Option.some.inj hl]
      · rw [List.length_cons] at ih
        have hrest := hshorter rest
        obtain ⟨args, segments, h⟩ := ih _ (by omega) (rest.dropWhile (· ≠ 0x25)) rfl
        exact ⟨args, _, .run hc h⟩

/-- One turn of the loop is one piece. -/
theorem Segments.step (buffer : ℕ → BitVec 8) (h : Segments str args (segment :: segments)) :
    ∃ rest args', Segments rest args' segments ∧ ∀ written con,
      vprintfLoop buffer str args written con =
        continueWith buffer rest args' (emit con written segment) := by
  cases h with
  | @run c rest _ _ hc h =>
    refine ⟨_, args, h, fun written con => ?_⟩
    rw [vprintfLoop, if_pos (Or.inl hc)]
    simp only [if_neg hc, List.tail_cons, take_run]
    rfl
  | @escape rest _ _ h =>
    have hbranch : (0x25 : BitVec 8) ≠ 0x25 ∨ (0x25 :: rest).head? = some 0x25 := Or.inr rfl
    refine ⟨_, args, h, fun written con => ?_⟩
    rw [vprintfLoop, if_pos hbranch]
    simp only [if_true, List.tail_cons, take_run]
    rfl
  | @conversion rest args _ p hp h =>
    refine ⟨rest, args, h, fun written con => ?_⟩
    cases p with
    | literal c noNul noPercent => exact absurd rfl hp
    | percent => exact absurd rfl hp
    | char w => exact vprintfLoop_convert (by decide) rfl
    | string s => exact vprintfLoop_convert (by decide) rfl
    | number conv w => exact vprintfLoop_number conv w
  | @unknown rest _ hunknown =>
    refine ⟨[], args, .nil args, fun written con => ?_⟩
    have hbranch : ¬ ((0x25 : BitVec 8) ≠ 0x25 ∨ rest.head? = some 0x25) := by
      rintro (h | h)
      · exact h rfl
      · exact hunknown _ h List.mem_cons_self
    rw [vprintfLoop, if_neg hbranch, convert_unknown hunknown]
    cases emit con written (0x25 :: rest) with
    | error con => rfl
    | ok result => simp only [continueWith, vprintfLoop]

/-- The whole loop, with room for so many characters below `INT_MAX`. Either it gets to the
byte `0xff` in one of the pieces that fit, or it prints exactly these, and fails if there are
others. -/
theorem Segments.loop (h : Segments str args segments) (buffer : ℕ → BitVec 8) (con : Console)
    {room : ℕ} (hroom : written + room = 2 ^ 31 - 1) :
    ∃ n con', vprintfLoop buffer str args written con = some (n, con') ∧
      (0xff ∈ (thatFit room segments).flatten → n = -1 ∧ con'.errno = con.errno) ∧
      (0xff ∉ (thatFit room segments).flatten →
        con'.handed = con.handed ++ (thatFit room segments).flatten.map charOf ∧
        (segments.flatten.length ≤ room → n = written + (thatFit room segments).flatten.length) ∧
        (room < segments.flatten.length → n = -1 ∧ con'.errno = 4)) := by
  induction segments generalizing str args written con room with
  | nil =>
    cases h
    refine ⟨written, con, by rw [vprintfLoop], fun h => (List.not_mem_nil h).elim, fun _ => ?_⟩
    exact ⟨(List.append_nil _).symm, fun _ => (add_zero _).symm,
      fun h => absurd h (Nat.not_lt_zero room)⟩
  | cons segment segments ih =>
    obtain ⟨rest, args', hrest, hstep⟩ := h.step buffer
    rw [hstep, thatFit, List.flatten_cons, List.length_append]
    by_cases hfits : segment.length ≤ room
    · rw [if_pos hfits, List.flatten_cons, List.mem_append]
      by_cases heof : 0xff ∈ segment
      · obtain ⟨con', hemit, herrno, -⟩ :=
          emit_eof con (show written + segment.length ≤ 2 ^ 31 - 1 by omega) heof
        rw [hemit]
        exact ⟨-1, con', rfl, fun _ => ⟨rfl, herrno⟩, fun h => absurd (Or.inl heof) h⟩
      · obtain ⟨con₁, hemit, herrno, hhanded⟩ :=
          emit_ok con (show written + segment.length ≤ 2 ^ 31 - 1 by omega) heof
        obtain ⟨n, con', hloop, hstopped, hprinted⟩ := ih hrest con₁
          (show written + segment.length + (room - segment.length) = 2 ^ 31 - 1 by omega)
        rw [hemit]
        refine ⟨n, con', hloop, fun h => ?_, fun h => ?_⟩
        · rw [← herrno]
          exact hstopped (h.resolve_left heof)
        · obtain ⟨hhanded', hcount, hover⟩ := hprinted (not_or.mp h).2
          rw [hhanded, List.append_assoc, ← List.map_append] at hhanded'
          refine ⟨hhanded', fun h => ?_, fun h => hover (by omega)⟩
          rw [hcount (by omega), List.length_append, Nat.cast_add, Nat.cast_add, add_assoc]
    · rw [if_neg hfits, emit, if_pos (by omega)]
      refine ⟨-1, _, rfl, fun h => (List.not_mem_nil h).elim,
        fun _ => ⟨?_, fun h => ?_, fun _ => ?_⟩⟩
      · exact (List.append_nil _).symm
      · omega
      · exact ⟨rfl, rfl⟩

/-! ## The result -/

/-- A call of `vprintf` returns, and its result counts the output: up to `INT_MAX` it is the
number of calls of `putchar`, and otherwise the complete pieces that fit are printed, and
nothing but that is reported as `EOVERFLOW`. -/
def CountsOutput (buffer : ℕ → BitVec 8) (fmt : CString) (args : List VaArg)
    (segments : List (List (BitVec 8))) (con : Console) : Prop :=
  ∃ n con' out,
    (∀ turns, fmt.bytes.length < turns →
      vprintfScan buffer fmt.object turns 0 args 0 con = .ok (n, con')) ∧
    con'.handed = con.handed ++ out ∧
    (segments.flatten.length ≤ 2 ^ 31 - 1 → n = out.length) ∧
    (n = -1 ∧ con'.errno = 4 ↔ 2 ^ 31 - 1 < segments.flatten.length) ∧
    (2 ^ 31 - 1 < segments.flatten.length →
      out = (thatFit (2 ^ 31 - 1) segments).flatten.map charOf)

/-- The pointer into the format stays in front of the end, and gets there: a call does not
come to an end only where it takes an argument that is not there. -/
theorem vprintfScan_fault (buffer : ℕ → BitVec 8) (fmt : CString) (args : List VaArg)
    (con : Console) {turns : ℕ} (hturns : fmt.bytes.length < turns) {fault : Fault}
    (h : vprintfScan buffer fmt.object turns 0 args 0 con = .error fault) : fault = .argument := by
  rw [vprintfScan_eq fmt.noNul fmt.drop_object hturns] at h
  cases hloop : vprintfLoop buffer fmt.bytes args 0 con with
  | none =>
    rw [hloop] at h
    exact (Except.error.inj h).symm
  | some r =>
    rw [hloop] at h
    exact nomatch h

theorem countsOutput_of_notMem {fmt : CString} (h : Segments fmt.bytes args segments)
    (heof : 0xff ∉ (thatFit (2 ^ 31 - 1) segments).flatten) (buffer : ℕ → BitVec 8)
    (con : Console) : CountsOutput buffer fmt args segments con := by
  obtain ⟨n, con', hloop, -, hprinted⟩ := h.loop buffer con (Nat.zero_add (2 ^ 31 - 1))
  obtain ⟨hhanded, hcount, hover⟩ := hprinted heof
  refine ⟨n, con', _, fun turns hturns => ?_, hhanded, fun hle => ?_, ⟨fun hfailed => ?_, hover⟩,
    fun _ => rfl⟩
  · rw [vprintfScan_eq fmt.noNul fmt.drop_object hturns, hloop]
    rfl
  · rw [hcount hle, List.length_map, Nat.cast_zero, zero_add]
  · by_contra hle
    have hn := hcount (Nat.le_of_not_lt hle)
    omega

/-- `print` takes the byte for the end of the file, and the call fails for no overflow. -/
theorem not_countsOutput_of_mem {fmt : CString} (h : Segments fmt.bytes args segments)
    (heof : 0xff ∈ (thatFit (2 ^ 31 - 1) segments).flatten) (buffer : ℕ → BitVec 8)
    {con : Console} (herrno : con.errno ≠ 4) : ¬ CountsOutput buffer fmt args segments con := by
  rintro ⟨n, con', out, hscan, -, hcount, hover, -⟩
  obtain ⟨n', con'', hloop, hstopped, -⟩ := h.loop buffer con (Nat.zero_add (2 ^ 31 - 1))
  obtain ⟨hn, herrno'⟩ := hstopped heof
  have hrun := hscan _ (Nat.lt_succ_self _)
  rw [vprintfScan_eq fmt.noNul fmt.drop_object (Nat.lt_succ_self _), hloop] at hrun
  obtain ⟨rfl, rfl⟩ := Prod.mk.inj (Except.ok.inj hrun)
  by_cases hle : segments.flatten.length ≤ 2 ^ 31 - 1
  · have hlength := hcount hle
    omega
  · exact herrno (herrno'.symm.trans (hover.mpr (Nat.lt_of_not_le hle)).2)

/-- The result of `vprintf` counts the output exactly when the byte `0xff` is in none of the pieces
that it has room for.

The output is cut into segments, one for each turn of the loop. `print` counts a segment unless a
byte of it reads as the end of the file, and the loop stops before the segment that would take the
total over `INT_MAX`. -/
theorem vprintf_counts_iff (buffer : ℕ → BitVec 8) (fmt : CString) (args : List VaArg) :
    (∀ con turns fault, fmt.bytes.length < turns →
      vprintfScan buffer fmt.object turns 0 args 0 con = .error fault → fault = .argument) ∧
    ∀ segments, Segments fmt.bytes args segments →
      ((∀ con, CountsOutput buffer fmt args segments con) ↔
        0xff ∉ (thatFit (2 ^ 31 - 1) segments).flatten) := by
  refine ⟨fun con turns fault hturns h => vprintfScan_fault buffer fmt args con hturns h,
    fun segments h => ⟨fun hall heof => ?_, fun heof con => ?_⟩⟩
  · have herrno : (⟨.start fun _ => 0, [], 0⟩ : Console).errno ≠ 4 := by decide
    exact not_countsOutput_of_mem h heof buffer herrno (hall _)
  · exact countsOutput_of_notMem h heof buffer con

/-- `"a%%%c%"` with `'b'`: a run, an escape, a conversion, and a `%` at the end. -/
theorem vprintf_counts_four :
    CountsOutput (fun _ => 0) ⟨[0x61, 0x25, 0x25, 0x25, 0x63, 0x25], by decide⟩ [.int 0x62]
      [[0x61], [0x25], [0x62], [0x25]] ⟨.start fun _ => 0, [], 0⟩ := by
  have hsegments : Segments [0x61, 0x25, 0x25, 0x25, 0x63, 0x25] [.int 0x62]
      [[0x61], [0x25], [0x62], [0x25]] :=
    .run (by decide) <| .escape <| .conversion (.char 0x62) (List.cons_ne_nil _ _) <|
      .unknown [] fun _ h => nomatch h
  exact ((vprintf_counts_iff _ _ _).2 _ hsegments).mpr (by decide) _

/-- `"\xff"`: one character is handed to `putchar`, and the result is -1 without an overflow. -/
theorem eof_byte_not_counted :
    (∃ con', vprintf (fun _ => 0) ⟨.start fun _ => 0, [], 0⟩ [0xff] [] = some (-1, con') ∧
      con'.handed.length = 1 ∧ con'.errno = 0) ∧
    Segments [0xff] [] [[0xff]] ∧
    ¬ CountsOutput (fun _ => 0) ⟨[0xff], by decide⟩ [] [[0xff]] ⟨.start fun _ => 0, [], 0⟩ := by
  have hsegments : Segments [0xff] [] [[0xff]] := .run (by decide) (.nil [])
  have hfmt : Segments (⟨[0xff], by decide⟩ : CString).bytes [] [[0xff]] := hsegments
  have heof : 0xff ∈ (thatFit (2 ^ 31 - 1) [[0xff]]).flatten := by decide
  refine ⟨?_, hsegments, not_countsOutput_of_mem hfmt heof _ (by decide)⟩
  obtain ⟨rest, args, hrest, hstep⟩ := hsegments.step fun _ => 0
  have hfits : 0 + [(0xff : BitVec 8)].length ≤ 2 ^ 31 - 1 := by decide
  obtain ⟨con', hemit, herrno, hhanded⟩ :=
    emit_eof ⟨.start fun _ => 0, [], 0⟩ hfits List.mem_cons_self
  refine ⟨con', ?_, ?_, herrno⟩
  · rw [vprintf, hstep, hemit]
    rfl
  · rw [hhanded]
    rfl

end MissyKernel
