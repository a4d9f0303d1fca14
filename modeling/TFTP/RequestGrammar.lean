import TFTP.Requests

/-!
# What the listening socket takes for a request

A request is an opcode, a filename, a NUL and a mode. The NUL behind the mode may be missing,
since the buffer behind a datagram holds zeros; the one behind the filename may not, since a
missing mode is no mode.
-/

namespace TFTP.RequestGrammar

open Octets Packet Sockets FileSystem Server Requests

/-- The three requests that carry a filename. -/
inductive Named : UInt8 → (Name → Request) → Prop where
  | read : Named 1 .read
  | write : Named 2 .write
  | delete : Named 6 .delete

/-- An opcode, a filename, a NUL, the mode in any case, and nothing or a NUL behind it. -/
def Grammar (op : UInt8) (f d : List UInt8) : Prop :=
  ∃ m r, d = [0, op] ++ f ++ [0] ++ m ++ r ∧ 0 ∉ f ∧ 0 ∉ m ∧ m.map tolower = octet ∧
    (r = [] ∨ ∃ rest, r = 0 :: rest)

/-- What `start` sends through the listening socket. -/
def reply (clientAddress : Addr) : Heard → List Effect
  | .starts _ => []
  | .wrongMode =>
    [sendError clientAddress errorIllegalTftpOperation "Illegal TFTP operation"]
  | .refused =>
    [sendError clientAddress errorIllegalTftpOperation "Illegal TFTP operation"]
  | .overread => []

theorem opcode_bytes {d : List UInt8} {op : UInt8} (same : opcodeOf d = bigEndian 0 op) :
    d.getD 0 0 = 0 ∧ d.getD 1 0 = op := by
  have value := congrArg UInt16.toNat same
  have low := op.toNat_lt
  have low' := (d.getD 1 0).toNat_lt
  have zero : (0 : UInt8).toNat = 0 := rfl
  rw [opcodeOf, bigEndian_toNat, bigEndian_toNat] at value
  exact ⟨UInt8.toNat_inj.mp (by omega), UInt8.toNat_inj.mp (by omega)⟩

theorem opcodeOf_eq_iff {d : List UInt8} {op : UInt8} (pos : op ≠ 0) :
    opcodeOf d = bigEndian 0 op ↔ [0, op] <+: d := by
  constructor
  · intro same
    obtain ⟨first, second⟩ := opcode_bytes same
    rcases d with _ | ⟨a, _ | ⟨b, rest⟩⟩
    · exact absurd second.symm pos
    · exact absurd second.symm pos
    · obtain rfl : a = 0 := first
      obtain rfl : b = op := second
      exact ⟨rest, rfl⟩
  · rintro ⟨rest, rfl⟩
    rfl

theorem Named.pos {op : UInt8} {make : Name → Request} (named : Named op make) : op ≠ 0 := by
  cases named <;> decide

/-- A datagram with the opcode of a named request starts this request or none. -/
theorem Named.hears {op : UInt8} {make : Name → Request} (named : Named op make)
    {d filename mode : List UInt8} (fits : d.length ≤ 516) (opcode : [0, op] <+: d)
    (first : filename = (d.drop 2).takeWhile fun c => c ≠ 0)
    (second : mode = ((d.drop 2).drop (filename.length + 1)).takeWhile fun c => c ≠ 0) :
    heard d = if mode.map tolower ≠ octet then .wrongMode else .starts (make filename) := by
  have value := (opcodeOf_eq_iff named.pos).mpr opcode
  cases named with
  | read =>
    rw [heard_request fits (Or.inl value) first second, value]
    rfl
  | write =>
    rw [heard_request fits (Or.inr (Or.inl value)) first second, value]
    rfl
  | delete =>
    rw [heard_request fits (Or.inr (Or.inr value)) first second, value]
    rfl

theorem heard_list {d : List UInt8} (fits : d.length ≤ 516) (opcode : [0, 7] <+: d) :
    heard d = .starts .list := by
  have seven : (7 : UInt8) ≠ 0 := by decide
  have value : opcodeOf d = bigEndian 0 7 := (opcodeOf_eq_iff seven).mpr opcode
  have small : ¬ received 1024 d > 516 := by
    rw [received]
    omega
  rw [heard, if_neg small]
  simp only [heardOpcode_fill]
  rw [value]
  rfl

/-- A datagram has the opcode of a request or is refused. -/
theorem heard_kinds (d : List UInt8) : [0, 7] <+: d ∨
    (∃ op make, Named op make ∧ [0, op] <+: d) ∨ heard d = .refused := by
  by_cases list : opcodeOf d = opcodeLS
  · exact Or.inl ((opcodeOf_eq_iff (by decide)).mp list)
  by_cases read : opcodeOf d = opcodeRRQ
  · exact Or.inr (Or.inl ⟨1, _, .read, (opcodeOf_eq_iff (by decide)).mp read⟩)
  by_cases write : opcodeOf d = opcodeWRQ
  · exact Or.inr (Or.inl ⟨2, _, .write, (opcodeOf_eq_iff (by decide)).mp write⟩)
  by_cases delete : opcodeOf d = opcodeDelete
  · exact Or.inr (Or.inl ⟨6, _, .delete, (opcodeOf_eq_iff (by decide)).mp delete⟩)
  exact Or.inr (Or.inr (heard_other ⟨list, read, write, delete⟩))

theorem Named.unique {op op' : UInt8} {make make' : Name → Request} {f f' : Name}
    (named : Named op make) (named' : Named op' make') (same : make f = make' f') :
    op = op' ∧ f = f' := by
  cases named <;> cases named' <;> cases same <;> exact ⟨rfl, rfl⟩

theorem Named.not_list {op : UInt8} {make : Name → Request} (named : Named op make) (f : Name) :
    make f ≠ .list := by
  cases named <;> exact nofun

theorem every_request (r : Request) :
    r = .list ∨ ∃ op make f, Named op make ∧ r = make f := by
  cases r with
  | read f => exact Or.inr ⟨1, _, f, .read, rfl⟩
  | write f => exact Or.inr ⟨2, _, f, .write, rfl⟩
  | delete f => exact Or.inr ⟨6, _, f, .delete, rfl⟩
  | list => exact Or.inl rfl

theorem takeWhile_clean_append {s rest : List UInt8} (clean : 0 ∉ s)
    (stops : rest = [] ∨ ∃ behind, rest = 0 :: behind) :
    ((s ++ rest).takeWhile fun c => c ≠ 0) = s := by
  rcases stops with rfl | ⟨behind, rfl⟩
  · rw [List.append_nil, takeWhile_clean clean]
  · rw [List.takeWhile_append_of_pos]
    · simp
    · exact fun c mem => decide_eq_true fun nul => clean (nul ▸ mem)

theorem split_at_nul (s : List UInt8) : ∃ rest, s = (s.takeWhile fun c => c ≠ 0) ++ rest ∧
    (rest = [] ∨ ∃ behind, rest = 0 :: behind) := by
  refine ⟨s.dropWhile fun c => c ≠ 0, (List.takeWhile_append_dropWhile).symm, ?_⟩
  cases rest : s.dropWhile fun c => c ≠ 0 with
  | nil => exact Or.inl rfl
  | cons c behind =>
    have stop := List.head?_dropWhile_not (fun c : UInt8 => decide (c ≠ 0)) s
    rw [rest] at stop
    have nul : c = 0 := by simpa using stop
    exact Or.inr ⟨behind, by rw [nul]⟩

theorem drop_behind_nul (front rest : List UInt8) :
    (front ++ 0 :: rest).drop (front.length + 1) = rest := by
  rw [← List.drop_drop, List.drop_left, List.drop_succ_cons, List.drop_zero]

theorem not_mem_takeWhile (s : List UInt8) : 0 ∉ s.takeWhile fun c => c ≠ 0 := by
  intro mem
  have other := List.mem_takeWhile_imp mem
  exact absurd other (by decide)

/-- What the reader takes for the fields of a datagram in the grammar. -/
theorem Named.hears_grammar {op : UInt8} {make : Name → Request} (named : Named op make)
    {d f : List UInt8} (fits : d.length ≤ 516) (grammar : Grammar op f d) :
    heard d = .starts (make f) := by
  obtain ⟨m, r, rfl, clean, clean', mode, stops⟩ := grammar
  have payload : ([0, op] ++ f ++ [0] ++ m ++ r).drop 2 = f ++ 0 :: (m ++ r) := by simp
  have first : f = (([0, op] ++ f ++ [0] ++ m ++ r).drop 2).takeWhile fun c => c ≠ 0 := by
    rw [payload, takeWhile_clean_append clean (Or.inr ⟨_, rfl⟩)]
  have second : m = ((([0, op] ++ f ++ [0] ++ m ++ r).drop 2).drop (f.length + 1)).takeWhile
      fun c => c ≠ 0 := by
    rw [payload, drop_behind_nul, takeWhile_clean_append clean' stops]
  rw [named.hears fits (by simp) first second, if_neg (not_not.mpr mode)]

theorem Named.heard_iff {op : UInt8} {make : Name → Request} (named : Named op make)
    {d : List UInt8} (fits : d.length ≤ 516) (f : Name) :
    heard d = .starts (make f) ↔ Grammar op f d := by
  refine ⟨fun starts => ?_, named.hears_grammar fits⟩
  have opcode : [0, op] <+: d := by
    rcases heard_kinds d with list | ⟨op', make', named', opcode'⟩ | refused
    · rw [heard_list fits list] at starts
      exact absurd (Heard.starts.inj starts).symm (named.not_list f)
    · rw [named'.hears fits opcode' rfl rfl] at starts
      split_ifs at starts
      obtain ⟨rfl, _⟩ := named'.unique named (Heard.starts.inj starts)
      exact opcode'
    · rw [refused] at starts
      cases starts
  obtain ⟨payload, rfl⟩ := opcode
  have reads := named.hears fits ⟨payload, rfl⟩ rfl rfl
  rw [starts] at reads
  split_ifs at reads with mode
  obtain ⟨_, rfl⟩ := named.unique named (Heard.starts.inj reads)
  have behind : ([0, op] ++ payload).drop 2 = payload := rfl
  rw [behind] at mode ⊢
  obtain ⟨rest, split, stops⟩ := split_at_nul payload
  rcases stops with rfl | ⟨second, rfl⟩
  · -- without a NUL behind the filename there is no mode
    rw [List.append_nil] at split
    rw [← split, List.drop_of_length_le (Nat.le_succ _)] at mode
    exact absurd mode (by decide)
  · obtain ⟨r, splitMode, stops⟩ := split_at_nul second
    have fields : payload.drop ((payload.takeWhile fun c => c ≠ 0).length + 1) = second := by
      have behind := congrArg (List.drop ((payload.takeWhile fun c => c ≠ 0).length + 1)) split
      rwa [drop_behind_nul] at behind
    rw [fields, not_not] at mode
    refine ⟨second.takeWhile fun c => c ≠ 0, r, ?_, not_mem_takeWhile _, not_mem_takeWhile _,
      mode, stops⟩
    rw [List.append_assoc _ _ r, ← splitMode, List.append_assoc [0, op], List.append_assoc [0, op],
      List.append_assoc, List.singleton_append, ← split]

theorem heard_list_iff {d : List UInt8} (fits : d.length ≤ 516) :
    heard d = .starts .list ↔ [0, 7] <+: d := by
  refine ⟨fun starts => ?_, heard_list fits⟩
  rcases heard_kinds d with list | ⟨op, make, named, opcode⟩ | refused
  · exact list
  · rw [named.hears fits opcode rfl rfl] at starts
    split_ifs at starts
    exact absurd (Heard.starts.inj starts) (named.not_list _)
  · rw [refused] at starts
    cases starts

theorem heard_no_overread {d : List UInt8} (fits : d.length ≤ 516) : heard d ≠ .overread := by
  rcases heard_kinds d with list | ⟨op, make, named, opcode⟩ | refused
  · rw [heard_list fits list]
    exact nofun
  · rw [named.hears fits opcode rfl rfl]
    split_ifs <;> exact nofun
  · rw [refused]
    exact nofun

/-- A datagram of any size is read inside the buffer. -/
theorem heard_inside (d : List UInt8) : heard d ≠ .overread := by
  by_cases fits : d.length ≤ 516
  · exact heard_no_overread fits
  · have oversized : received 1024 d > 516 := by
      rw [received]
      omega
    rw [heard, if_pos oversized]
    intro same
    cases same

theorem Named.datagram_fields {op : UInt8} {make : Name → Request} (named : Named op make)
    (f : Name) : requestDatagram (make f) =
      [0, op] ++ (copiedText f ++ 0 :: (octet ++ 0 ::
        ((requestArray f).drop 2).drop ((copiedText f).length + octet.length + 2))) := by
  have packet := createRequestPacket_eq [0, op] ((requestArray f).drop 2) f octet rfl
  have copied : copiedText octet = octet := by decide
  rw [copied] at packet
  have built : requestDatagram (make f) =
      createRequestPacket ([0, op] ++ (requestArray f).drop 2) f octet := by
    cases named <;> rfl
  rw [built, packet]

theorem Named.datagram_eq {op : UInt8} {make : Name → Request} (named : Named op make)
    {f : Name} (clean : 0 ∉ f) :
    requestDatagram (make f) = [0, op] ++ f ++ [0] ++ octet ++ [0] := by
  have rest : ((requestArray f).drop 2).drop (f.length + octet.length + 2) = [] := by
    rw [List.drop_drop, List.drop_of_length_le]
    rw [requestArray, List.length_replicate]
    omega
  rw [named.datagram_fields, copiedText_eq clean, rest]
  simp

theorem Named.datagram_grammar {op : UInt8} {make : Name → Request} (named : Named op make)
    {f : Name} (clean : 0 ∉ f) : Grammar op f (requestDatagram (make f)) :=
  ⟨octet, [0], named.datagram_eq clean, clean, by decide, by decide, Or.inr ⟨[], rfl⟩⟩

theorem Named.datagram_fits {op : UInt8} {make : Name → Request} (named : Named op make)
    {f : Name} (clean : 0 ∉ f) (short : f.length ≤ 507) :
    (requestDatagram (make f)).length ≤ 516 := by
  have five : octet.length = 5 := by decide
  rw [named.datagram_eq clean]
  simp only [List.length_append, List.length_cons, List.length_nil, five]
  omega

/-- A client's packet starts the request it was built for or none. -/
theorem Named.hears_own {op : UInt8} {make : Name → Request} (named : Named op make) {f : Name}
    {r : Request} : heard (requestDatagram (make f)) = .starts r ↔
      0 ∉ f ∧ f.length ≤ 507 ∧ r = make f := by
  constructor
  · intro starts
    have fields := named.datagram_fields f
    have opcode : [0, op] <+: requestDatagram (make f) := ⟨_, fields.symm⟩
    have fits : (requestDatagram (make f)).length ≤ 516 := by
      by_contra oversized
      have refused : heard (requestDatagram (make f)) = .refused :=
        if_pos (by rw [received]; omega)
      rw [refused] at starts
      cases starts
    have clean : 0 ∉ f := by
      intro nul
      -- the copy of the filename stores a NUL of its own, and the next one ends an empty mode
      obtain ⟨front, clean, copied⟩ := copiedText_nul nul
      have payload : ∃ behind, (requestDatagram (make f)).drop 2 = front ++ 0 :: 0 :: behind := by
        rw [fields, copied, List.append_assoc]
        exact ⟨_, rfl⟩
      obtain ⟨behind, payload⟩ := payload
      have first : front = ((requestDatagram (make f)).drop 2).takeWhile fun c => c ≠ 0 := by
        rw [payload, takeWhile_clean_append clean (Or.inr ⟨_, rfl⟩)]
      have second : [] = (((requestDatagram (make f)).drop 2).drop (front.length + 1)).takeWhile
          fun c => c ≠ 0 := by
        rw [payload, drop_behind_nul]
        rfl
      rw [named.hears fits opcode first second, if_pos (by decide)] at starts
      cases starts
    have five : octet.length = 5 := by decide
    have short : f.length ≤ 507 := by
      rw [named.datagram_eq clean] at fits
      simp only [List.length_append, List.length_cons, List.length_nil, five] at fits
      omega
    rw [named.hears_grammar fits (named.datagram_grammar clean)] at starts
    exact ⟨clean, short, (Heard.starts.inj starts).symm⟩
  · rintro ⟨clean, short, rfl⟩
    exact named.hears_grammar (named.datagram_fits clean short) (named.datagram_grammar clean)

/-- The reader accepts its grammar and nothing else, refuses the rest with one ERROR packet,
stays inside its buffer, and takes the client's own packets for what they are. -/
theorem parser_exact (d : List UInt8) (fits : d.length ≤ 516) (clientAddress : Addr) :
    (∀ op make, Named op make → ∀ f, heard d = .starts (make f) ↔ Grammar op f d) ∧
    (heard d = .starts .list ↔ [0, 7] <+: d) ∧
    (¬ [0, 7] <+: d → (∀ op make f, Named op make → ¬ Grammar op f d) →
      (∀ r, heard d ≠ .starts r) ∧ reply clientAddress (heard d) =
        [sendError clientAddress errorIllegalTftpOperation "Illegal TFTP operation"]) ∧
    heard d ≠ .overread ∧
    (∀ op make, Named op make → ∀ f : Name, 0 ∉ f → f.length ≤ 507 →
      heard (requestDatagram (make f)) = .starts (make f)) := by
  refine ⟨fun op make named f => named.heard_iff fits f, heard_list_iff fits,
    fun notList notNamed => ?_, heard_no_overread fits, fun op make named f clean short =>
      named.hears_grammar (named.datagram_fits clean short) (named.datagram_grammar clean)⟩
  have none : ∀ r, heard d ≠ .starts r := by
    intro r starts
    rcases every_request r with rfl | ⟨op, make, f, named, rfl⟩
    · exact notList ((heard_list_iff fits).mp starts)
    · exact notNamed op make f named ((named.heard_iff fits f).mp starts)
  refine ⟨none, ?_⟩
  cases outcome : heard d with
  | starts r => exact absurd outcome (none r)
  | wrongMode => rfl
  | refused => rfl
  | overread => exact absurd outcome (heard_no_overread fits)

/-- A mode in mixed case whose NUL is missing. -/
theorem parser_exact_unterminated :
    heard ([0, 1] ++ text "a" ++ [0] ++ text "OctEt") = .starts (.read (text "a")) ↔
      Grammar 1 (text "a") ([0, 1] ++ text "a" ++ [0] ++ text "OctEt") :=
  (parser_exact ([0, 1] ++ text "a" ++ [0] ++ text "OctEt") (by decide) ⟨0, 0⟩).1 1 _ .read _

end TFTP.RequestGrammar
