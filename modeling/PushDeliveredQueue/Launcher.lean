import PushDeliveredQueue.Fields
import Mathlib.Data.Int.Notation
import Mathlib.Data.List.TakeWhile
import Mathlib.Data.Fin.VecNotation

/-!
# The launcher, freeing a port

Before it starts a project, the launcher kills the process that keeps the project's port
(`KillProcessUsingPortAsync` of `ProjectLauncher.cs`), which it looks up in the output of
`netstat` (`GetProcessIdUsingPort`): the process of the first line that contains a colon followed
by the port number, and the word `LISTENING`. What counts is the text of the line. So the number
may be that of the foreign port, and it may be the beginning of a longer one.

A text is a list of characters here. The output of `netstat`, as far as it is what the launcher
expects, is built from its lines (`PushDeliveredQueue.NetstatLine`), so that what a line means and
what it contains can be told apart: the launcher finds the process that listens on the port
exactly when it can read the line and the lines in front of it do not mislead it
(`PushDeliveredQueue.process_id_iff`).
-/

namespace PushDeliveredQueue

/-! ### `int.TryParse` -/

/-- The white space `int.TryParse` skips. -/
def isWhite (c : Char) : Bool := c.toNat = 0x20 ∨ 0x09 ≤ c.toNat ∧ c.toNat ≤ 0x0D

/-- `int.TryParse`: white space, a sign, digits, white space, and null characters, of which only
the digits are required; and the number has to be in range. -/
def tryParse (s : List Char) : Option ℤ :=
  let s := s.dropWhile isWhite
  let negative := s.head? = some '-'
  let s := if negative ∨ s.head? = some '+' then s.tail else s
  let digits := s.takeWhile Char.isDigit
  let trailing := (s.dropWhile Char.isDigit).dropWhile isWhite
  let value : ℤ :=
    if negative then -Nat.ofDigitChars 10 digits 0 else Nat.ofDigitChars 10 digits 0
  if digits ≠ [] ∧ (trailing.all fun c => c.toNat = 0) ∧
      -2147483648 ≤ value ∧ value ≤ 2147483647 then
    some value
  else none

/-! ### Looking a process up -/

/-- The word that marks a port somebody listens on. -/
def listening : List Char := "LISTENING".toList

/-- What the loop of `GetProcessIdUsingPort` returns at a line, if it returns there. -/
def processIdOfLine (port : ℕ) (line : List Char) : Option ℤ :=
  if ':' :: Nat.toDigits 10 port <:+: line ∧ listening <:+: line then
    match (Fields.split ' ' line).getLast? with
    | some part => tryParse part
    | none => none
  else none

/-- `GetProcessIdUsingPort`, with the output of `netstat`, or none if it cannot be run. -/
def getProcessIdUsingPort (output : Option (List Char)) (port : ℕ) : Option ℤ :=
  match output with
  | some output => (Fields.split '\n' output).findSome? (processIdOfLine port)
  | none => none

/-- `KillProcessUsingPortAsync`: the process it kills. Looking the process up by its number and
killing it may fail, which is logged. -/
def killProcessUsingPort (output : Option (List Char)) (canKill : ℤ → Bool) (port : ℕ) :
    Option ℤ :=
  match getProcessIdUsingPort output port with
  | some processId => if canKill processId then some processId else none
  | none => none

/-! ### The output of `netstat` -/

/-- Characters that can stand in a field of a line. -/
def IsField (s : List Char) : Prop := ' ' ∉ s ∧ '\n' ∉ s

instance (s : List Char) : Decidable (IsField s) := inferInstanceAs (Decidable (_ ∧ _))

/-- **A line of `netstat`**: a protocol, a local and a foreign address with their ports, a state
and a process number, separated by blanks. -/
structure NetstatLine where
  proto : List Char
  localAddress : List Char
  localPort : ℕ
  foreignAddress : List Char
  foreignPort : ℕ
  state : List Char
  pid : ℕ
  /-- The blanks in front. -/
  indent : ℕ
  /-- The blanks between two fields, beyond the one there has to be. -/
  spacing : Fin 4 → ℕ
  /-- The blanks at the end. -/
  trailing : ℕ
  /-- Whether the first half of the line break of Windows comes behind them. -/
  carriageReturn : Bool
  proto_field : IsField proto ∧ proto ≠ []
  localAddress_field : IsField localAddress
  foreignAddress_field : IsField foreignAddress
  state_field : IsField state ∧ state ≠ []

namespace NetstatLine

variable (line : NetstatLine) (port : ℕ)

/-- The local address with its port. -/
def localEnd : List Char := line.localAddress ++ ':' :: Nat.toDigits 10 line.localPort

/-- The foreign address with its port. -/
def foreignEnd : List Char := line.foreignAddress ++ ':' :: Nat.toDigits 10 line.foreignPort

/-- What is behind the process number. -/
def ending : List Char :=
  List.replicate line.trailing ' ' ++ if line.carriageReturn then ['\r'] else []

/-- The line as it is printed. -/
def text : List Char :=
  List.replicate line.indent ' ' ++ (line.proto ++ ' ' ::
    (List.replicate (line.spacing 0) ' ' ++ (line.localEnd ++ ' ' ::
      (List.replicate (line.spacing 1) ' ' ++ (line.foreignEnd ++ ' ' ::
        (List.replicate (line.spacing 2) ' ' ++ (line.state ++ ' ' ::
          (List.replicate (line.spacing 3) ' ' ++
            (Nat.toDigits 10 line.pid ++ line.ending)))))))))

/-- **The process of the line listens on a port.** -/
def ListensOn : Prop := line.state = listening ∧ line.localPort = port

/-- The port number, after a colon, occurs in the line: it begins the local port number or the
foreign one, or is in one of the other fields. -/
def MentionsPort : Prop :=
  ':' :: Nat.toDigits 10 port <:+: line.proto ∨
    ':' :: Nat.toDigits 10 port <:+: line.localAddress ∨
    Nat.toDigits 10 port <+: Nat.toDigits 10 line.localPort ∨
    ':' :: Nat.toDigits 10 port <:+: line.foreignAddress ∨
    Nat.toDigits 10 port <+: Nat.toDigits 10 line.foreignPort ∨
    ':' :: Nat.toDigits 10 port <:+: line.state

/-- The word `LISTENING` occurs in the line. -/
def MentionsListening : Prop :=
  listening <:+: line.proto ∨ listening <:+: line.localAddress ∨
    listening <:+: line.foreignAddress ∨ listening <:+: line.state

/-- `int.TryParse` can read the last field: it is the process number, not a carriage return that
blanks have cut off from it, and the number is in range. -/
def Readable : Prop :=
  line.pid ≤ 2147483647 ∧ (line.carriageReturn = true → line.trailing = 0)

/-- What the launcher goes by: the port number, the word, and a last field that `int.TryParse` can
read. -/
def Matches : Prop := line.MentionsPort port ∧ line.MentionsListening ∧ line.Readable

instance : Decidable (line.ListensOn port) := inferInstanceAs (Decidable (_ ∧ _))

instance : Decidable (line.MentionsPort port) := inferInstanceAs (Decidable (_ ∨ _))

instance : Decidable line.MentionsListening := inferInstanceAs (Decidable (_ ∨ _))

instance : Decidable line.Readable := inferInstanceAs (Decidable (_ ∧ _))

instance : Decidable (line.Matches port) := inferInstanceAs (Decidable (_ ∧ _))

end NetstatLine

/-- The output of `netstat`: lines, and empty lines, each on a line of its own. -/
def netstatOutput (rows : List (Option NetstatLine)) : List Char :=
  ['\n'].intercalate (rows.map fun
    | some line => line.text
    | none => [])

/-! ### Numbers, printed and read -/

section Numbers

variable {c : Char} {s : List Char}

theorem notMem_toDigits (hc : c.isDigit = false) (n : ℕ) : c ∉ Nat.toDigits 10 n := by
  intro hmem
  have hdigit := Nat.isDigit_of_mem_toDigits (by decide) (by decide) hmem
  rw [hc] at hdigit
  exact absurd hdigit (by decide)

theorem isField_toDigits (n : ℕ) : IsField (Nat.toDigits 10 n) :=
  ⟨notMem_toDigits (by decide) n, notMem_toDigits (by decide) n⟩

/-- A digit is no white space, and no sign. -/
theorem isWhite_of_isDigit (hc : c.isDigit) : isWhite c = false ∧ c ≠ '-' ∧ c ≠ '+' := by
  have hge : 48 ≤ c.toNat := by
    simp only [Char.isDigit, Bool.and_eq_true, decide_eq_true_eq] at hc
    exact hc.1
  refine ⟨?_, ?_, ?_⟩
  · simp only [isWhite, decide_eq_false_iff_not]
    omega
  · rintro rfl
    exact absurd hge (by decide)
  · rintro rfl
    exact absurd hge (by decide)

/-- White space holds no digits to read. -/
theorem takeWhile_isDigit_of_isWhite (hs : ∀ c ∈ s, isWhite c) :
    s.takeWhile Char.isDigit = [] ∧ s.dropWhile Char.isDigit = s := by
  cases s with
  | nil => exact ⟨rfl, rfl⟩
  | cons c cs =>
    have hc : ¬ c.isDigit := fun hdigit => by
      have hwhite := hs c List.mem_cons_self
      rw [(isWhite_of_isDigit hdigit).1] at hwhite
      exact absurd hwhite (by decide)
    exact ⟨List.takeWhile_cons_of_neg hc, List.dropWhile_cons_of_neg hc⟩

/-- What `int.TryParse` reads of digits with white space behind them. -/
theorem tryParse_append {digits trailing : List Char} (hne : digits ≠ [])
    (hdigits : ∀ c ∈ digits, c.isDigit) (htrailing : ∀ c ∈ trailing, isWhite c) :
    tryParse (digits ++ trailing) =
      if Nat.ofDigitChars 10 digits 0 ≤ 2147483647 then some (Nat.ofDigitChars 10 digits 0 : ℤ)
      else none := by
  obtain ⟨c, cs, rfl⟩ := List.exists_cons_of_ne_nil hne
  obtain ⟨hwhite, hminus, hplus⟩ := isWhite_of_isDigit (hdigits c List.mem_cons_self)
  obtain ⟨htake, hdrop⟩ := takeWhile_isDigit_of_isWhite htrailing
  have hfront : (c :: cs ++ trailing).dropWhile isWhite = c :: cs ++ trailing :=
    List.dropWhile_cons_of_neg (by simp [hwhite])
  have hminus' : ¬ (c :: cs ++ trailing).head? = some '-' := by simpa using hminus
  have hplus' : ¬ (c :: cs ++ trailing).head? = some '+' := by simpa using hplus
  have hback : trailing.dropWhile isWhite = [] := List.dropWhile_eq_nil_iff.mpr htrailing
  simp only [tryParse, hfront, hminus', hplus', or_self, if_false,
    List.takeWhile_append_of_pos hdigits, List.dropWhile_append_of_pos hdigits, htake, hdrop,
    hback, List.append_nil]
  refine if_congr ⟨fun h => ?_, fun h => ⟨hne, List.all_nil, ?_, ?_⟩⟩ rfl rfl
  · omega
  · omega
  · omega

/-- **`int.TryParse` reads a number that was printed**, if it is in range. -/
theorem tryParse_toDigits (n : ℕ) (hs : ∀ c ∈ s, isWhite c) :
    tryParse (Nat.toDigits 10 n ++ s) = if n ≤ 2147483647 then some (n : ℤ) else none := by
  have hread : Nat.ofDigitChars 10 (Nat.toDigits 10 n) 0 = n := Nat.ofDigitChars_ten_toDigits
  rw [tryParse_append Nat.toDigits_ne_nil
    (fun c hc => Nat.isDigit_of_mem_toDigits (by decide) (by decide) hc) hs, hread]

end Numbers

/-! ### What a line contains -/

namespace NetstatLine

variable (line : NetstatLine) (port : ℕ)

theorem isField_localEnd : IsField line.localEnd := by
  obtain ⟨hblank, hbreak⟩ := line.localAddress_field
  obtain ⟨hblank', hbreak'⟩ := isField_toDigits line.localPort
  simp [IsField, localEnd, *]

theorem isField_foreignEnd : IsField line.foreignEnd := by
  obtain ⟨hblank, hbreak⟩ := line.foreignAddress_field
  obtain ⟨hblank', hbreak'⟩ := isField_toDigits line.foreignPort
  simp [IsField, foreignEnd, *]

/-- Only digits, blanks and the first half of a line break are at the end of a line. -/
theorem notMem_pid_append_ending {c : Char} (hdigit : c.isDigit = false) (hblank : c ≠ ' ')
    (hreturn : c ≠ '\r') : c ∉ Nat.toDigits 10 line.pid ++ line.ending := by
  intro hmem
  rcases List.mem_append.mp hmem with hmem | hmem
  · exact notMem_toDigits hdigit line.pid hmem
  · rcases List.mem_append.mp hmem with hmem | hmem
    · exact hblank (List.eq_of_mem_replicate hmem)
    · split_ifs at hmem
      · exact hreturn (List.mem_singleton.mp hmem)
      · exact List.not_mem_nil hmem

theorem notMem_text : '\n' ∉ line.text := by
  have hlast := line.notMem_pid_append_ending (c := '\n') (by decide) (by decide) (by decide)
  rw [List.mem_append, not_or] at hlast
  simp [text, List.mem_replicate, line.proto_field.1.2, line.isField_localEnd.2,
    line.isField_foreignEnd.2, line.state_field.1.2, hlast]

theorem text_ne_nil : line.text ≠ [] := by
  simp [text]

/-- **The last field of a line**: the process number, with the first half of a line break if that
comes right behind it, or else this half alone. -/
theorem exists_split_last : ∃ parts part,
    Fields.split ' ' (Nat.toDigits 10 line.pid ++ line.ending) = parts ++ [part] ∧
      tryParse part = if line.Readable then some (line.pid : ℤ) else none := by
  have hblank := (isField_toDigits line.pid).1
  have hdigits := Fields.split_of_notMem (c := ' ') (l := Nat.toDigits 10 line.pid)
    Nat.toDigits_ne_nil hblank
  cases hreturn : line.carriageReturn with
  | false =>
    refine ⟨[], Nat.toDigits 10 line.pid, ?_, ?_⟩
    · simp [ending, hreturn, Fields.split_append_replicate, hdigits]
    · simpa [Readable, hreturn] using tryParse_toDigits (s := []) line.pid (by simp)
  | true =>
    cases htrailing : line.trailing with
    | zero =>
      refine ⟨[], Nat.toDigits 10 line.pid ++ ['\r'], ?_, ?_⟩
      · rw [ending, hreturn, htrailing]
        exact Fields.split_of_notMem (by simp) (by simp [hblank])
      · simpa [Readable, hreturn, htrailing] using
          tryParse_toDigits (s := ['\r']) line.pid (by simp [isWhite])
    | succ n =>
      refine ⟨[Nat.toDigits 10 line.pid], ['\r'], ?_, ?_⟩
      · rw [ending, hreturn, htrailing, List.replicate_succ, List.cons_append,
          Fields.split_append_cons, hdigits, Fields.split_replicate_append]
        rfl
      · rw [if_neg fun h => absurd (h.2 hreturn) (by simp [htrailing])]
        decide

/-- **The fields of a line**, of which the last one counts. -/
theorem exists_getLast?_split_text : ∃ part, (Fields.split ' ' line.text).getLast? = some part ∧
    tryParse part = if line.Readable then some (line.pid : ℤ) else none := by
  have hlocal : line.localEnd ≠ [] := by simp [localEnd]
  have hforeign : line.foreignEnd ≠ [] := by simp [foreignEnd]
  obtain ⟨parts, part, hlast, hread⟩ := line.exists_split_last
  refine ⟨part, ?_, hread⟩
  have hsplit : Fields.split ' ' line.text =
      [line.proto, line.localEnd, line.foreignEnd, line.state] ++ parts ++ [part] := by
    simp only [text, Fields.split_replicate_append, Fields.split_append_cons, hlast,
      Fields.split_of_notMem line.proto_field.2 line.proto_field.1.1,
      Fields.split_of_notMem hlocal line.isField_localEnd.1,
      Fields.split_of_notMem hforeign line.isField_foreignEnd.1,
      Fields.split_of_notMem line.state_field.2 line.state_field.1.1]
    rfl
  rw [hsplit, List.getLast?_concat]

/-- **The port number in the text of a line.** -/
theorem infix_text_iff :
    ':' :: Nat.toDigits 10 port <:+: line.text ↔ line.MentionsPort port := by
  have hblank : ' ' ∉ ':' :: Nat.toDigits 10 port := by
    simp [notMem_toDigits (c := ' ') (by decide) port]
  have hcolon (n : ℕ) : ':' ∉ Nat.toDigits 10 n := notMem_toDigits (by decide) n
  have hlast : ¬ ':' :: Nat.toDigits 10 port <:+: Nat.toDigits 10 line.pid ++ line.ending :=
    fun h => line.notMem_pid_append_ending (by decide) (by decide) (by decide)
      (h.subset List.mem_cons_self)
  simp only [text, Fields.infix_replicate_append_iff (List.cons_ne_nil _ _) hblank,
    Fields.infix_append_cons_iff hblank, localEnd, foreignEnd,
    Fields.cons_infix_append_cons_iff (hcolon port) (hcolon line.localPort),
    Fields.cons_infix_append_cons_iff (hcolon port) (hcolon line.foreignPort), hlast, or_false,
    MentionsPort, or_assoc]

/-- **The word `LISTENING` in the text of a line.** -/
theorem listening_infix_text_iff : listening <:+: line.text ↔ line.MentionsListening := by
  have hblank : ' ' ∉ listening := by decide
  have hcolon : ':' ∉ listening := by decide
  have hdigits (n : ℕ) : ¬ listening <:+: Nat.toDigits 10 n := fun h =>
    notMem_toDigits (c := 'L') (by decide) n (h.subset (by decide))
  have hlast : ¬ listening <:+: Nat.toDigits 10 line.pid ++ line.ending := fun h =>
    line.notMem_pid_append_ending (c := 'L') (by decide) (by decide) (by decide)
      (h.subset (by decide))
  simp only [text, Fields.infix_replicate_append_iff (by decide) hblank,
    Fields.infix_append_cons_iff hblank, localEnd, foreignEnd,
    Fields.infix_append_cons_iff hcolon, hdigits, hlast, or_false, MentionsListening]

/-- **What the loop does at a line.** -/
theorem processIdOfLine_text :
    processIdOfLine port line.text = if line.Matches port then some (line.pid : ℤ) else none := by
  obtain ⟨part, hlast, hread⟩ := line.exists_getLast?_split_text
  simp only [processIdOfLine, line.infix_text_iff, line.listening_infix_text_iff, hlast, hread]
  by_cases hm : line.MentionsPort port ∧ line.MentionsListening
  · rw [if_pos hm]
    exact if_congr ⟨fun h => ⟨hm.1, hm.2, h⟩, fun h => h.2.2⟩ rfl rfl
  · rw [if_neg hm, if_neg fun h => hm ⟨h.1, h.2.1⟩]

-- a blank in front of the carriage return hides the process number
example : processIdOfLine 80 "TCP 0.0.0.0:80 0.0.0.0:0 LISTENING 42 \r".toList = none := by decide

/-- Whoever listens on the port has a line of the right text, if it can be read. -/
theorem ListensOn.matches_iff {line : NetstatLine} {port : ℕ} (h : line.ListensOn port) :
    line.Matches port ↔ line.Readable := by
  obtain ⟨hstate, hport⟩ := h
  refine ⟨fun hm => hm.2.2, fun hread =>
    ⟨Or.inr (Or.inr (Or.inl ?_)), Or.inr (Or.inr (Or.inr ?_)), hread⟩⟩
  · rw [hport]
  · rw [hstate]

end NetstatLine

/-! ### Which process is found -/

theorem killProcessUsingPort_eq_some_iff (output : Option (List Char)) (canKill : ℤ → Bool)
    (port : ℕ) (killed : ℤ) : killProcessUsingPort output canKill port = some killed ↔
      getProcessIdUsingPort output port = some killed ∧ canKill killed := by
  rw [killProcessUsingPort]
  cases getProcessIdUsingPort output port with
  | none => simp
  | some processId =>
    constructor
    · intro h
      simp only at h
      split_ifs at h with hcan
      obtain rfl := Option.some.inj h
      exact ⟨rfl, hcan⟩
    · rintro ⟨h, hcan⟩
      obtain rfl := Option.some.inj h
      exact if_pos hcan

section Lookup

variable (rows : List (Option NetstatLine)) (port : ℕ)

/-- The lines of the output are the lines it was built from. -/
theorem split_netstatOutput :
    Fields.split '\n' (netstatOutput rows) = (rows.filterMap id).map NetstatLine.text := by
  rw [netstatOutput, Fields.split_intercalate]
  · induction rows with
    | nil => rfl
    | cons row rows ih =>
      cases row with
      | none => simpa using ih
      | some line => simpa [line.text_ne_nil] using ih
  · intro text htext
    obtain ⟨row, -, rfl⟩ := List.mem_map.mp htext
    cases row with
    | none => exact List.not_mem_nil
    | some line => exact line.notMem_text

/-- **`GetProcessIdUsingPort` returns the process of the first line of the right text.** -/
theorem getProcessIdUsingPort_netstatOutput :
    getProcessIdUsingPort (some (netstatOutput rows)) port =
      ((rows.filterMap id).find? (·.Matches port)).map (fun line => (line.pid : ℤ)) := by
  rw [getProcessIdUsingPort, split_netstatOutput]
  induction rows.filterMap id with
  | nil => rfl
  | cons line lines ih =>
    rw [List.map_cons, List.findSome?_cons, line.processIdOfLine_text, List.find?_cons]
    by_cases h : line.Matches port
    · simp [h]
    · simpa [h] using ih

/-- **What is found**, if the first listener has these lines in front of it and those behind: the
process of the first line of the right text, be it in front of it, the listener, or behind it. -/
theorem find?_matches_append {before after : List NetstatLine} {listener : NetstatLine}
    (hlistens : listener.ListensOn port) :
    ((before ++ listener :: after).find? (·.Matches port)).map (fun line => (line.pid : ℤ)) =
        some (listener.pid : ℤ) ↔
      (∃ line, before.find? (·.Matches port) = some line ∧ line.pid = listener.pid) ∨
        (∀ line ∈ before, ¬ line.Matches port) ∧ (listener.Readable ∨
          ∃ line, after.find? (·.Matches port) = some line ∧ line.pid = listener.pid) := by
  rw [List.find?_append]
  cases hbefore : before.find? (·.Matches port) with
  | some line =>
    have hmem := List.mem_of_find?_eq_some hbefore
    have hmatches : line.Matches port := by simpa using List.find?_some hbefore
    have hno : ¬ ∀ line ∈ before, ¬ line.Matches port := fun h => h line hmem hmatches
    simp [hno, Int.natCast_inj]
  | none =>
    have hno : ∀ line ∈ before, ¬ line.Matches port := by
      simpa using List.find?_eq_none.mp hbefore
    rw [and_iff_right hno, or_iff_right (by simp), Option.none_or, List.find?_cons]
    by_cases hread : listener.Readable
    · simp [hlistens.matches_iff.mpr hread, hread]
    · have hnot : ¬ listener.Matches port := mt hlistens.matches_iff.mp hread
      simp [hnot, hread, Int.natCast_inj]

/-- **The launcher finds the process that listens on the port, and kills no other**, exactly when
the lines in front of the first listener do not mislead it. If nobody listens on the port, no line
may have the right text. Otherwise the first line in front of the first listener that has it, if
there is one, must be of the same process; and if there is none, the listener must be readable, or
the next line of the right text be of the same process. -/
theorem process_id_iff :
    (getProcessIdUsingPort (some (netstatOutput rows)) port =
        ((rows.filterMap id).find? (·.ListensOn port)).map (fun line => (line.pid : ℤ)) ∧
      ∀ canKill killed,
        killProcessUsingPort (some (netstatOutput rows)) canKill port = some killed →
          ∃ line ∈ rows.filterMap id, line.ListensOn port ∧ line.pid = killed) ↔
    (∀ line ∈ rows.filterMap id, ¬ line.ListensOn port ∧ ¬ line.Matches port) ∨
    ∃ before listener after, rows.filterMap id = before ++ listener :: after ∧
      (∀ line ∈ before, ¬ line.ListensOn port) ∧ listener.ListensOn port ∧
      ((∃ line, before.find? (·.Matches port) = some line ∧ line.pid = listener.pid) ∨
        (∀ line ∈ before, ¬ line.Matches port) ∧ (listener.Readable ∨
          ∃ line, after.find? (·.Matches port) = some line ∧ line.pid = listener.pid)) := by
  rw [getProcessIdUsingPort_netstatOutput]
  generalize hlines : rows.filterMap id = lines
  rw [and_iff_left_of_imp (b := ∀ canKill killed, _)]
  · cases hfirst : lines.find? (·.ListensOn port) with
    | none =>
      have hnobody : ∀ line ∈ lines, ¬ line.ListensOn port := by
        simpa using List.find?_eq_none.mp hfirst
      rw [Option.map_none, Option.map_eq_none_iff, List.find?_eq_none]
      constructor
      · exact fun h => Or.inl fun line hline => ⟨hnobody line hline, by simpa using h line hline⟩
      · rintro (h | ⟨before, listener, after, rfl, -, hlistens, -⟩)
        · exact fun line hline => by simpa using (h line hline).2
        · exact absurd hlistens (hnobody listener (by simp))
    | some listener =>
      obtain ⟨hlistens, before, after, rfl, hbefore⟩ := List.find?_eq_some_iff_append.mp hfirst
      rw [Option.map_some, find?_matches_append port (by simpa using hlistens)]
      constructor
      · exact fun h => Or.inr ⟨before, listener, after, rfl, by simpa using hbefore,
          by simpa using hlistens, h⟩
      · rintro (h | ⟨before', listener', after', heq, hbefore', hlistens', h⟩)
        · exact absurd (by simpa using hlistens) (h listener (by simp)).1
        · -- both ways of cutting the lines are at the first listener
          have hfirst' : (before' ++ listener' :: after').find? (·.ListensOn port) =
              some listener' :=
            List.find?_eq_some_iff_append.mpr ⟨by simpa using hlistens', before', after', rfl,
              by simpa using hbefore'⟩
          obtain rfl := Option.some.inj (hfirst.symm.trans (heq ▸ hfirst'))
          rw [← find?_matches_append port hlistens', ← heq] at h
          exact (find?_matches_append port hlistens').mp h
  · intro heq canKill killed hkill
    have hkilled := (killProcessUsingPort_eq_some_iff _ _ _ _).mp hkill
    rw [getProcessIdUsingPort_netstatOutput, hlines, heq] at hkilled
    obtain ⟨listener, hlistener, hpid⟩ := Option.map_eq_some_iff.mp hkilled.1
    have hlistens : listener.ListensOn port := by simpa using List.find?_some hlistener
    exact ⟨listener, List.mem_of_find?_eq_some hlistener, hlistens, hpid⟩

end Lookup

/-- A server on port 8080. -/
def server8080 : NetstatLine where
  proto := "TCP".toList
  localAddress := "0.0.0.0".toList
  localPort := 8080
  foreignAddress := "0.0.0.0".toList
  foreignPort := 0
  state := listening
  pid := 4242
  indent := 2
  spacing := ![3, 2, 4, 2]
  trailing := 0
  carriageReturn := true
  proto_field := by decide
  localAddress_field := by decide
  foreignAddress_field := by decide
  state_field := by decide

/-- Nobody listens on port 80, and the server on port 8080 is killed for it. -/
theorem process_id_of_longer_port :
    netstatOutput [some server8080] =
        "  TCP    0.0.0.0:8080   0.0.0.0:0     LISTENING   4242\r".toList ∧
      (∀ line ∈ [server8080], ¬ line.ListensOn 80) ∧
      getProcessIdUsingPort (some (netstatOutput [some server8080])) 80 = some 4242 ∧
      killProcessUsingPort (some (netstatOutput [some server8080])) (fun _ => true) 80 =
        some 4242 := by
  have hget : getProcessIdUsingPort (some (netstatOutput [some server8080])) 80 = some 4242 := by
    rw [getProcessIdUsingPort_netstatOutput]
    decide
  exact ⟨by decide, by decide, hget, (killProcessUsingPort_eq_some_iff _ _ _ _).mpr ⟨hget, rfl⟩⟩

end PushDeliveredQueue
