import TFTP.ServerRequests

/-!
# Reader counts

The count of a name is kept by erasing and reinserting its entry in a map that other
threads change between any two steps. It is related here to the threads themselves.
-/

namespace TFTP.ReaderCounts

open Octets Packet Sockets FileSystem Runs Server

/-- The handler is between its increment and its decrement of the name's count. -/
def reads (filename : Name) : Handler → Bool
  | .reading f _ _ => f == filename
  | _ => false

def readers (filename : Name) (handlers : List Handler) : Nat := handlers.countP (reads filename)

/-- What one handler contributes to the count of a name. -/
def weight (filename : Name) (h : Handler) : Int := if reads filename h then 1 else 0

@[simp] theorem weight_reading (f filename : Name) (client : Addr) (loop : SendLoop) :
    weight f (.reading filename client loop) = if f = filename then 1 else 0 := by
  by_cases same : f = filename
  · simp [weight, reads, same]
  · simp [weight, reads, same, Ne.symm same]

@[simp] theorem weight_writing (f filename : Name) (client : Addr) (inode : Nat)
    (loop : WriteLoop) : weight f (.writing filename client inode loop) = 0 := rfl

@[simp] theorem weight_listing (f : Name) (client : Addr) (loop : SendLoop) :
    weight f (.listing client loop) = 0 := rfl

@[simp] theorem weight_done (f : Name) : weight f .done = 0 := rfl

@[simp] theorem weight_undefined (f : Name) : weight f .undefined = 0 := rfl

/-- The map counts `k filename` readers of each name, and has an entry for a name that
has one. -/
def Counts (files : FileMap) (k : Name → Int) : Prop :=
  ∀ filename, files.getD filename 0 = k filename ∧ (0 < k filename → filename ∈ files)

theorem Counts.congr {files : FileMap} {k k' : Name → Int} (counts : Counts files k)
    (same : ∀ f, k f = k' f) : Counts files k' :=
  (funext same : k = k') ▸ counts

theorem Counts.addReaders {files : FileMap} {k : Name → Int} (counts : Counts files k)
    (filename : Name) (n : Int) :
    Counts (addReaders files filename n) fun f => k f + if f = filename then n else 0 := by
  intro f
  rw [getD_addReaders, (counts f).1, mem_addReaders]
  refine ⟨rfl, fun pos => ?_⟩
  by_cases same : f = filename
  · exact Or.inl same
  · exact Or.inr ((counts f).2 (by simpa [same] using pos))

theorem Counts.insertIfNew {files : FileMap} {k : Name → Int} (counts : Counts files k)
    (filename : Name) : Counts (files.insertIfNew filename 0) k := by
  intro f
  refine ⟨?_, fun pos => Std.TreeMap.mem_insertIfNew.mpr (Or.inr ((counts f).2 pos))⟩
  rw [← (counts f).1]
  simp only [Std.TreeMap.getD_eq_getD_getElem?, Std.TreeMap.getElem?_insertIfNew,
    Std.LawfulEqCmp.compare_eq_iff_eq]
  by_cases new : filename = f ∧ filename ∉ files
  · obtain ⟨rfl, absent⟩ := new
    simp [absent]
  · rw [if_neg new]

theorem Counts.erase {files : FileMap} {k : Name → Int} (counts : Counts files k)
    {filename : Name} (unread : k filename = 0) : Counts (files.erase filename) k := by
  intro f
  simp only [Std.TreeMap.getD_erase, Std.TreeMap.mem_erase, Std.LawfulEqCmp.compare_eq_iff_eq]
  by_cases same : filename = f
  · rw [if_pos same, ← same, unread]
    exact ⟨rfl, fun pos => absurd pos (by decide)⟩
  · rw [if_neg same]
    exact ⟨(counts f).1, fun pos => ⟨by simpa using same, (counts f).2 pos⟩⟩

theorem canDelete_iff (filename : Name) (files : FileMap) :
    canDelete filename files = true ↔ files[filename]? = some 0 := by
  unfold canDelete
  cases files[filename]? with
  | none => simp
  | some readers => simp

/-- A turn changes the counts by what its handler contributes less than before. -/
def Balanced (shared : Shared) (before : Handler) (turn : Turn) : Prop :=
  ∀ k : Name → Int, Counts shared.files k →
    Counts turn.shared.files fun f => k f - weight f before + weight f turn.handler

theorem balanced_same {shared : Shared} {before : Handler} {turn : Turn}
    (files : turn.shared.files = shared.files)
    (reader : ∀ f, weight f turn.handler = weight f before) : Balanced shared before turn := by
  intro k counts
  rw [files]
  exact counts.congr fun f => by rw [reader]; omega

theorem afterRead_counts {shared : Shared} {k : Name → Int} (counts : Counts shared.files k)
    (filename : Name) (client : Addr) (turn : SendLoop × List Effect) :
    Counts (afterRead shared filename client turn).shared.files fun f =>
      k f - (if f = filename then 1 else 0) +
        weight f (afterRead shared filename client turn).handler := by
  unfold afterRead
  split
  · exact counts.congr fun f => by simp
  · refine (counts.addReaders filename (-1)).congr fun f => ?_
    simp only [weight_done]
    split <;> omega

theorem afterList_weight (shared : Shared) (client : Addr) (accesses : List Access)
    (turn : SendLoop × List Effect) (f : Name) :
    weight f (afterList shared client accesses turn).handler = 0 := by
  simp only [afterList]
  split <;> rfl

theorem begin_balanced (shared : Shared) (client : Addr) (ackBuffer : Buffer 4)
    (env : Environment) (r : Request) :
    Balanced shared .done (begin shared client ackBuffer env r) := by
  cases r with
  | read filename =>
    simp only [begin, handleReadRequest]
    split
    · intro k counts
      exact (afterRead_counts (counts.addReaders filename 1) filename client _).congr
        fun f => by simp
    · exact balanced_same rfl (fun f => rfl)
  | write filename =>
    simp only [begin, handleWriteRequest]
    split
    · exact balanced_same rfl (fun f => rfl)
    · split
      · exact balanced_same rfl (fun f => rfl)
      · exact balanced_same rfl (fun f => rfl)
  | delete filename =>
    simp only [begin, handleDeleteRequest]
    split
    · exact balanced_same rfl (fun f => rfl)
    · split
      · exact balanced_same rfl (fun f => rfl)
      · rename_i free
        split
        · exact balanced_same rfl (fun f => rfl)
        · split
          · exact balanced_same rfl (fun f => rfl)
          · split
            · exact balanced_same rfl (fun f => rfl)
            · intro k counts
              have entry := (canDelete_iff filename shared.files).mp (not_not.mp free)
              have unread : k filename = 0 := by
                rw [← (counts filename).1, Std.TreeMap.getD_eq_getD_getElem?, entry]
                rfl
              exact (counts.erase unread).congr fun f => by simp
  | list =>
    simp only [begin, handleLSRequest]
    split
    · exact balanced_same rfl (fun f => rfl)
    · exact balanced_same rfl (fun f => afterList_weight _ _ _ _ f)

theorem advance_balanced (shared : Shared) (e : Recv) (env : Environment) (h : Handler) :
    Balanced shared h (advance shared e env h) := by
  cases h with
  | reading filename client loop =>
    intro k counts
    exact (afterRead_counts counts filename client _).congr fun f => by
      rw [weight_reading]
      rfl
  | writing filename client inode loop =>
    intro k counts
    have silent : ∀ f, weight f (advance shared e env
        (.writing filename client inode loop)).handler = 0 := by
      intro f
      simp only [advance, writeTurn]
      split <;> rfl
    have kept : Counts (advance shared e env (.writing filename client inode loop)).shared.files
        k := by
      simp only [advance, writeTurn]
      split
      · exact counts.insertIfNew filename
      · exact counts
    exact kept.congr fun f => by simp [silent]
  | listing client loop => exact balanced_same rfl (fun f => afterList_weight _ _ _ _ f)
  | done => exact balanced_same rfl (fun f => rfl)
  | undefined => exact balanced_same rfl (fun f => rfl)

def Exact (s : State) : Prop := Counts s.shared.files fun f => readers f s.handlers

theorem initial_exact {s : State} (initial : Initial s) : Exact s := by
  obtain ⟨regularFiles, map, _⟩ := initial.listed
  intro f
  rw [initial.idle, map, Std.TreeMap.getD_eq_getD_getElem?, getElem?_initializeFileMap]
  refine ⟨?_, fun pos => absurd pos (by simp [readers])⟩
  split <;> rfl

theorem readers_append (f : Name) (handlers : List Handler) (h : Handler) :
    (readers f (handlers ++ [h]) : Int) = readers f handlers + weight f h := by
  simp only [readers, List.countP_append, List.countP_singleton, weight]
  split <;> simp

theorem readers_set {handlers : List Handler} {i : Nat} {before : Handler}
    (entry : handlers[i]? = some before) (f : Name) (h : Handler) :
    (readers f (handlers.set i h) : Int) =
      readers f handlers - weight f before + weight f h := by
  obtain ⟨bound, value⟩ := List.getElem?_eq_some_iff.mp entry
  have counted := List.boole_getElem_le_countP (p := reads f) bound
  simp only [readers, weight, List.countP_set bound, value] at counted ⊢
  split_ifs at counted ⊢ <;> omega

theorem step_exact (s : State) (a : Action) (enabled : Enabled s a) (before : Exact s) :
    Exact (step s a) := by
  cases a with
  | request r client ackBuffer env =>
    refine (begin_balanced s.shared client ackBuffer env r _ before).congr fun f => ?_
    rw [weight_done, Int.sub_zero]
    exact (readers_append f s.handlers _).symm
  | turn i e env =>
    obtain ⟨h, entry, _⟩ := enabled.2
    have turn := turnOf_turn entry e env
    have after := advance_balanced s.shared e env h _ before
    rw [← turn] at after
    refine after.congr fun f => ?_
    exact (readers_set entry f (turnOf s (.turn i e env)).handler).symm

/-- The DELETE is acknowledged: the name had no reader, and its entry in the map and on
the disk go together. -/
structure Deleted (s : State) (filename : Name) (turn : Turn) : Prop where
  idle : s.shared.files[filename]? = some 0
  unread : readers filename s.handlers = 0
  present : s.shared.disk.entries (resolve (filePath filename)) ≠ none
  effect : turn.shared =
    { files := s.shared.files.erase filename
      disk := s.shared.disk.remove (resolve (filePath filename)) }

theorem Deleted.listed {s : State} {filename : Name} {turn : Turn}
    (deleted : Deleted s filename turn) : filename ∈ s.shared.files := by
  rw [Std.TreeMap.mem_iff_isSome_getElem?, deleted.idle]
  rfl

/-- The file of a proper name lies in the database directory. -/
theorem Deleted.shared {s : State} {filename : Name} {turn : Turn}
    (deleted : Deleted s filename turn) (proper : Proper filename) :
    turn.shared =
      { files := s.shared.files.erase filename
        disk := s.shared.disk.remove (childOf filename) } := by
  rw [← resolve_proper proper]
  exact deleted.effect

theorem Deleted.gone {s : State} {filename : Name} {turn : Turn}
    (deleted : Deleted s filename turn) :
    filename ∉ turn.shared.files ∧
      turn.shared.disk.entries (resolve (filePath filename)) = none := by
  rw [deleted.effect]
  exact ⟨by simp, Disk.remove_entries_self _ _⟩

def Acknowledged (client : Addr) (turn : Turn) : Prop := sendACK client ackOk ∈ turn.effects

theorem refuse_unacknowledged (shared : Shared) (accesses : List Access) (client a : Addr)
    (errorCode : UInt16) (msg : String) :
    ¬ Acknowledged client (refuse shared accesses (sendError a errorCode msg)) := by
  intro ack
  exact sendError_ne_sendACK a client errorCode ackOk msg (List.mem_singleton.mp ack).symm

theorem delete_cases {s : State} (exact_ : Exact s) (filename : Name) (client : Addr)
    (env : Environment) :
    (Acknowledged client (handleDeleteRequest s.shared filename client env) ∧
      Deleted s filename (handleDeleteRequest s.shared filename client env)) ∨
    (¬ Acknowledged client (handleDeleteRequest s.shared filename client env) ∧
      (handleDeleteRequest s.shared filename client env).shared = s.shared) := by
  unfold handleDeleteRequest
  split
  · exact Or.inr ⟨refuse_unacknowledged _ _ _ _ _ _, rfl⟩
  · split
    · exact Or.inr ⟨refuse_unacknowledged _ _ _ _ _ _, rfl⟩
    · rename_i free
      split
      · exact Or.inr ⟨refuse_unacknowledged _ _ _ _ _ _, rfl⟩
      · split
        · exact Or.inr ⟨refuse_unacknowledged _ _ _ _ _ _, rfl⟩
        · rename_i there
          split
          · exact Or.inr ⟨refuse_unacknowledged _ _ _ _ _ _, rfl⟩
          · have idle := (canDelete_iff filename s.shared.files).mp (not_not.mp free)
            have unread : (readers filename s.handlers : Int) = 0 := by
              refine (exact_ filename).1.symm.trans ?_
              rw [Std.TreeMap.getD_eq_getD_getElem?, idle]
              rfl
            exact Or.inl ⟨List.mem_singleton.mpr rfl,
              { idle := idle
                unread := Int.ofNat_inj.mp unread
                present := by simpa using there
                effect := rfl }⟩

/-- The counts are exact in every reachable state, only an unread name is deleted, a
refused DELETE changes nothing, and no upload touches an entry that is there. -/
theorem readers_exact {s₀ s : State} {acts : List Action} (initial : Initial s₀)
    (run : Run machine s₀ acts s) :
    (∀ filename (n : Int), s.shared.files[filename]? = some n → n = readers filename s.handlers) ∧
    (∀ filename, 0 < readers filename s.handlers → filename ∈ s.shared.files) ∧
    (∀ filename client env,
      (Acknowledged client (handleDeleteRequest s.shared filename client env) →
        Deleted s filename (handleDeleteRequest s.shared filename client env) ∧
          filename ∉ (handleDeleteRequest s.shared filename client env).shared.files ∧
          (handleDeleteRequest s.shared filename client env).shared.disk.entries
            (resolve (filePath filename)) = none) ∧
      (¬ Acknowledged client (handleDeleteRequest s.shared filename client env) →
        (handleDeleteRequest s.shared filename client env).shared = s.shared)) ∧
    (∀ filename client inode loop e env, filename ∈ s.shared.files →
      (writeTurn s.shared filename client inode loop e env).shared.files[filename]? =
        s.shared.files[filename]?) := by
  have exact_ : Exact s := run.invariant step_exact (initial_exact initial)
  refine ⟨?_, ?_, ?_, ?_⟩
  · intro filename n entry
    refine Eq.trans ?_ (exact_ filename).1
    rw [Std.TreeMap.getD_eq_getD_getElem?, entry]
    rfl
  · exact fun filename active => (exact_ filename).2 (Int.ofNat_lt.mpr active)
  · intro filename client env
    rcases delete_cases exact_ filename client env with ⟨ack, deleted⟩ | ⟨refused, same⟩
    · exact ⟨fun _ => ⟨deleted, deleted.gone⟩, fun refused => absurd ack refused⟩
    · exact ⟨fun ack => absurd ack refused, fun _ => same⟩
  · intro filename client inode loop e env mem
    simp only [writeTurn]
    split
    · rw [Std.TreeMap.getElem?_insertIfNew, if_neg (fun new => new.2 mem)]
    · rfl

/-- One client is reading `f`, another one asks for its deletion. -/
theorem readers_exact_delete_refused :
    let f := text "f"
    let client : Addr := ⟨0x7F000001, 40000⟩
    let s := step (startedWith f [7]) (.request (.read f) client (Buffer.zero 4) .ok)
    readers f s.handlers = 1 ∧ f ∈ s.shared.files ∧
      (handleDeleteRequest s.shared f client .ok).shared = s.shared := by
  intro f client s
  have run : Run machine (startedWith f [7])
      ([] ++ [.request (.read f) client (Buffer.zero 4) .ok]) s :=
    .snoc (.refl _) ⟨by simp [startedWith], trivial⟩
  have one_reader : readers f s.handlers = 1 := by decide
  obtain ⟨_, listed, deletes, _⟩ := readers_exact (startedWith_initial (by decide) [7]) run
  have refused : ¬ Acknowledged client (handleDeleteRequest s.shared f client .ok) := by
    intro ack
    have unread := ((deletes f client .ok).1 ack).1.unread
    rw [one_reader] at unread
    cases unread
  exact ⟨one_reader, listed f (by rw [one_reader]; decide), (deletes f client .ok).2 refused⟩

end TFTP.ReaderCounts
