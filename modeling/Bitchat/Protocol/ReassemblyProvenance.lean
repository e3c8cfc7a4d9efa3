import Bitchat.Protocol.ReassemblySoundness

/-! Where returned bytes come from, and on which calls a key's results depend. -/
namespace Bitchat.Protocol.FragmentReassembler
open AssemblyState

abbrev History := List (Taken FragmentReassembler (Call × Reassembled))

/-- One of the calls brought this chunk. -/
def Received (calls : History) (key : AssemblyKey) (total originalType index : Nat)
    (chunk : Bytes) : Prop :=
  ∃ e ∈ calls, e.label.1.fragment = some (key.1, ⟨key.2, index, total, originalType, chunk⟩)

/-- The first call found no assembly of `key`; since then there was one before each call. -/
def SinceOpened (key : AssemblyKey) (calls : History) : Prop :=
  ∃ first rest, calls = first :: rest ∧ first.before.assemblies.get? key = none ∧
    ∀ e ∈ rest, e.before.assemblies.get? key ≠ none

/-- All chunks of the assembly were received since it was opened. -/
def Collected (history : History) (key : AssemblyKey) (state : AssemblyState) : Prop :=
  ∃ earlier since, history = earlier ++ since ∧ SinceOpened key since ∧
    ∀ i chunk, state.chunks.get? i = some chunk →
      Received since key state.total state.originalMessageType i chunk

/-- The bytes are the chunks, in order, that the calls brought for one assembly, the last
of them with the call that returned the bytes. -/
structure Origin (lim : ReassemblyLimits) (earlier : History)
    (last : Taken FragmentReassembler (Call × Reassembled)) (data : Bytes) : Prop where
  chunks : ∃ key total originalType chunkAt before since,
    earlier ++ [last] = before ++ since ∧ SinceOpened key since ∧
    (∃ index chunk,
      last.label.1.fragment = some (key.1, ⟨key.2, index, total, originalType, chunk⟩)) ∧
    (∀ i < total, Received since key total originalType i (chunkAt i)) ∧
    data = (List.range total).flatMap chunkAt
  length_le : data.length ≤ lim.maxReassembledBytes

section Provenance
variable {lim : ReassemblyLimits} {history : History} {r t : FragmentReassembler}
  {key : AssemblyKey}

theorem Received.append {calls more : History} {total originalType index : Nat} {chunk : Bytes}
    (received : Received calls key total originalType index chunk) :
    Received (calls ++ more) key total originalType index chunk := by
  obtain ⟨e, he, carries⟩ := received
  exact ⟨e, List.mem_append_left _ he, carries⟩

theorem SinceOpened.snoc {calls : History} {e : Taken FragmentReassembler (Call × Reassembled)}
    (since : SinceOpened key calls) (present : e.before.assemblies.get? key ≠ none) :
    SinceOpened key (calls ++ [e]) := by
  obtain ⟨first, rest, rfl, absent, still⟩ := since
  refine ⟨first, rest ++ [e], rfl, absent, fun x hx => ?_⟩
  rcases List.mem_append.mp hx with hx | hx
  · exact still x hx
  · exact List.mem_singleton.mp hx ▸ present

theorem Collected.snoc {state : AssemblyState}
    {e : Taken FragmentReassembler (Call × Reassembled)} (collected : Collected history key state)
    (present : e.before.assemblies.get? key ≠ none) : Collected (history ++ [e]) key state := by
  obtain ⟨earlier, since, rfl, opened, chunks⟩ := collected
  exact ⟨earlier, since ++ [e], List.append_assoc .., opened.snoc present,
    fun i chunk h => (chunks i chunk h).append⟩

/-- The assembly that takes a fragment holds chunks received since it was opened. -/
theorem Takes.collected {call : Call} (result : Reassembled) (t : FragmentReassembler)
    {senderId : Bytes}
    {fields : FragmentFields} {state : AssemblyState}
    (takes : Takes lim call.now (senderId, fields.fragmentId) fields
      (r.assemblies.get? (senderId, fields.fragmentId)) state)
    (carries : call.fragment = some (senderId, fields))
    (held : ∀ state, r.assemblies.get? (senderId, fields.fragmentId) = some state →
      Collected history (senderId, fields.fragmentId) state) :
    Collected (history ++ [⟨r, (call, result), t⟩]) (senderId, fields.fragmentId)
      (state.withChunk fields.index fields.data) := by
  have brought : Received [⟨r, (call, result), t⟩] (senderId, fields.fragmentId) state.total
      state.originalMessageType fields.index fields.data :=
    ⟨_, List.mem_singleton_self _, by rw [carries, takes.total, takes.originalType]⟩
  rcases takes.source with here | ⟨absent, fresh⟩
  · obtain ⟨earlier, since, rfl, since', chunks⟩ := held state here
    refine ⟨earlier, since ++ [⟨r, (call, result), t⟩], List.append_assoc ..,
      since'.snoc (by simp [here]), fun i chunk h => ?_⟩
    simp only [withChunk, InsertionMap.get?_set] at h
    by_cases same : i = fields.index
    · subst same
      simp only [if_true, Option.some.injEq] at h
      obtain ⟨e, he, carried⟩ := brought
      exact ⟨e, List.mem_append_right _ he, h ▸ carried⟩
    · rw [if_neg same] at h
      exact (chunks i chunk h).append
  · refine ⟨history, [⟨r, (call, result), t⟩], rfl, ⟨_, [], rfl, absent, by simp⟩,
      fun i chunk h => ?_⟩
    simp only [withChunk, InsertionMap.get?_set] at h
    by_cases same : i = fields.index
    · subst same
      simp only [if_true, Option.some.injEq] at h
      exact h ▸ brought
    · rw [if_neg same, fresh] at h
      simp [opened] at h

theorem step_collected {call : Call} {result : Reassembled}
    (held : ∀ key state, r.assemblies.get? key = some state → Collected history key state)
    (step : Step lim r (call, result) t) :
    ∀ key state, t.assemblies.get? key = some state →
      Collected (history ++ [⟨r, (call, result), t⟩]) key state := by
  intro key state present
  have after : t = (r.perform lim call).2 := by rw [show r.perform lim call = (result, t) from step]
  have entry := (perform_entry lim r key call).resolve_right
    fun gone => by rw [after, gone.1] at present; cases present
  rw [after, entry] at present
  have kept : r.assemblies.get? key = some state →
      Collected (history ++ [⟨r, (call, result), t⟩]) key state :=
    fun here => (held key state here).snoc (by simp [here])
  rcases view_cases lim key call (r.assemblies.get? key) with
    ⟨senderId, fields, carries, rfl, same⟩ | same | same
  · rw [same] at present
    have spec := assemble_spec lim call.now (senderId, fields.fragmentId) fields
      (r.assemblies.get? (senderId, fields.fragmentId))
    rw [present] at spec
    generalize (assemble lim call.now _ fields _).1 = outcome at spec
    generalize left : some state = found at spec
    cases spec with
    | refused => exact kept left.symm
    | dropped => cases left
    | repeated state' here => exact kept (here.trans left.symm)
    | stored state' takes _ =>
      cases left
      exact takes.collected _ _ carries (held _)
    | completed => cases left
  · exact kept (same ▸ present)
  · rw [same] at present
    cases present

theorem run_collected (run : Run (Step lim) new history r) :
    ∀ key state, r.assemblies.get? key = some state → Collected history key state := by
  induction run with
  | nil => simp [new]
  | @snoc history r label t _ step ih => exact step_collected ih step

theorem run_bounded (run : Run (Step lim) new history r) : Bounded lim r := by
  refine run.invariant (P := Bounded lim) ⟨Nat.zero_le _, by simp [new]⟩ ?_
  intro r label t bounded step
  have after : t = (r.perform lim label.1).2 := by
    rw [show r.perform lim label.1 = (label.2, t) from step]
  exact after ▸ perform_bounded bounded

theorem result_origin {e : Taken FragmentReassembler (Call × Reassembled)} {data : Bytes}
    (run : Run (Step lim) new history e.before) (step : Step lim e.before e.label e.after)
    (returned : e.label.2 = .ok (some data)) : Origin lim history e data := by
  obtain ⟨r, ⟨call, result⟩, t⟩ := e
  simp only at run step returned
  have performed : (r.perform lim call).1 = .ok (some data) := by
    rw [show r.perform lim call = (result, t) from step, returned]
  cases carries : call.fragment with
  | none =>
    cases call with
    | pruneStale now maxAge => simp [perform] at performed
    | clear => simp [perform] at performed
    | addFragment | addFragmentPacket =>
      obtain ⟨⟨e, raised⟩, _⟩ := perform_unreadable lim r carries (by simp) (by simp)
      rw [raised] at performed
      cases performed
  | some found =>
    obtain ⟨senderId, fields⟩ := found
    rw [perform_fragment carries, (insertChunk_view _ _ _ _ _).1] at performed
    have spec := assemble_spec lim call.now (senderId, fields.fragmentId) fields
      (r.assemblies.get? (senderId, fields.fragmentId))
    rw [performed] at spec
    generalize (assemble lim call.now _ fields _).2 = left at spec
    generalize outcome : Except.ok (some data) = found at spec
    cases spec with
    | refused => cases outcome
    | dropped => cases outcome
    | repeated => cases outcome
    | stored => cases outcome
    | completed state takes complete =>
      cases outcome
      have waiting := takes.waiting ((run_bounded run).sound _)
      refine ⟨?_, completed_length takes waiting complete⟩
      obtain ⟨earlier, since, whole, opened, chunks⟩ :=
        takes.collected result t carries (run_collected run _)
      refine ⟨(senderId, fields.fragmentId), fields.total, fields.originalType,
        fun i => ((state.withChunk fields.index fields.data).chunks.get? i).getD [],
        earlier, since, whole, opened, ⟨fields.index, fields.data, carries⟩, ?_, ?_⟩
      · intro i hi
        obtain ⟨chunk, found⟩ := allPresent_iff.mp complete.2 i (takes.total ▸ hi)
        have received := chunks i chunk found
        simp only [found, Option.getD_some]
        simpa [withChunk, takes.total, takes.originalType] using received
      · simp [joinChunks, withChunk, takes.total]

end Provenance

/-- The calls that can touch the assembly of `key`. -/
def relevant (key : AssemblyKey) : Call → Bool
  | .pruneStale .. | .clear => true
  | call => call.key = some key

/-- The results of the calls whose fragment belongs to `key`. -/
def results (key : AssemblyKey) (history : History) : List Reassembled :=
  history.filterMap fun e => if e.label.1.key = some key then some e.label.2 else none

def projection (key : AssemblyKey) (history : History) : List Call :=
  (history.map fun e => e.label.1).filter (relevant key)

/-- The assembly of `key` alone, run through a list of calls. -/
def viewRun (lim : ReassemblyLimits) (key : AssemblyKey) (calls : List Call) :
    List Reassembled × Option AssemblyState :=
  calls.foldl (fun acc call =>
    (if call.key = some key then acc.1 ++ [(view lim key call acc.2).1] else acc.1,
      (view lim key call acc.2).2)) ([], none)

section Isolation
variable {lim : ReassemblyLimits} {key : AssemblyKey} {history other : History}
  {r s : FragmentReassembler}

theorem view_irrelevant {call : Call} (idle : relevant key call = false)
    (held : Option AssemblyState) : (view lim key call held).2 = held := by
  cases call with
  | pruneStale => simp [relevant] at idle
  | clear => simp [relevant] at idle
  | addFragment | addFragmentPacket =>
    simp only [relevant, Call.key] at idle
    simp only [view]
    split
    · rename_i senderId fields carries
      rw [if_neg (by simpa [carries] using idle)]
    · rfl

theorem viewRun_projection (key : AssemblyKey) (run : Run (Step lim) new history r)
    (room : ∀ e ∈ history, e.before.assemblies.size < lim.maxActiveAssemblies) :
    viewRun lim key (projection key history) = (results key history, r.assemblies.get? key) := by
  induction run with
  | nil => rfl
  | @snoc history r label t _ step ih =>
    obtain ⟨call, result⟩ := label
    have earlier := ih fun e he => room e (List.mem_append_left _ he)
    have space := room ⟨r, (call, result), t⟩ (by simp)
    have performed : r.perform lim call = (result, t) := step
    have entry := perform_view key call space
    rw [performed] at entry
    by_cases touched : relevant key call = true
    · have calls : projection key (history ++ [⟨r, (call, result), t⟩]) =
          projection key history ++ [call] := by simp [projection, touched]
      rw [calls, viewRun, List.foldl_append, ← viewRun, earlier]
      simp only [List.foldl_cons, List.foldl_nil, ← entry]
      by_cases own : call.key = some key
      · have returned := perform_result lim r own
        rw [performed] at returned
        simp only [results, List.filterMap_append, List.filterMap_cons, own, if_true, ← returned,
          List.filterMap_nil]
      · simp [results, own]
    · rw [Bool.not_eq_true] at touched
      have calls : projection key (history ++ [⟨r, (call, result), t⟩]) =
          projection key history := by simp [projection, touched]
      have own : call.key ≠ some key := by
        cases call <;> simp_all [relevant]
      rw [calls, earlier, entry, view_irrelevant touched]
      simp [results, own]

/-- Bounds, provenance and isolation in every run of a reassembler that starts empty. -/
theorem reassembler_sound (run : Run (Step lim) new history r) :
    Bounded lim r ∧
    (∀ earlier e later data, history = earlier ++ e :: later → e.label.2 = .ok (some data) →
      Origin lim earlier e data) ∧
    ∀ key other s, Run (Step lim) new other s →
      (∀ e ∈ history, e.before.assemblies.size < lim.maxActiveAssemblies) →
      (∀ e ∈ other, e.before.assemblies.size < lim.maxActiveAssemblies) →
      projection key history = projection key other → results key history = results key other := by
  refine ⟨run_bounded run, ?_, ?_⟩
  · rintro earlier e later data rfl returned
    obtain ⟨before, step⟩ := run.split
    exact result_origin before step returned
  · intro key other s run' room room' same
    have here := viewRun_projection key run room
    rw [same, viewRun_projection key run' room'] at here
    exact (congrArg Prod.fst here).symm

def twoPartFragment (index : UInt8) (data : Bytes) : Bytes :=
  List.replicate 8 0 ++ [0, index, 0, 2, 4] ++ data

/-- Two fragments that arrive in reverse order. -/
theorem reassembler_sound_reversed :
    Bounded {} ((new.addFragment {} 0 [1] (twoPartFragment 1 [8, 9])).2.addFragment {} 1 [1]
      (twoPartFragment 0 [7])).2 ∧
    ((new.addFragment {} 0 [1] (twoPartFragment 1 [8, 9])).2.addFragment {} 1 [1]
      (twoPartFragment 0 [7])).1 = .ok (some [7, 8, 9]) := by
  have first : Step {} new (.addFragment 0 [1] (twoPartFragment 1 [8, 9]), .ok none)
      (new.addFragment {} 0 [1] (twoPartFragment 1 [8, 9])).2 := by
    unfold Step
    decide +kernel
  have second : Step {} (new.addFragment {} 0 [1] (twoPartFragment 1 [8, 9])).2
      (.addFragment 1 [1] (twoPartFragment 0 [7]), .ok (some [7, 8, 9]))
      ((new.addFragment {} 0 [1] (twoPartFragment 1 [8, 9])).2.addFragment {} 1 [1]
        (twoPartFragment 0 [7])).2 := by
    unfold Step
    decide +kernel
  exact ⟨(reassembler_sound ((Run.nil.snoc first).snoc second)).1, congrArg Prod.fst second⟩

end Isolation

end Bitchat.Protocol.FragmentReassembler
