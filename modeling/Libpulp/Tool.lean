import Libpulp.Writes
/-!
# Tool — after a hijacked call (tools/insn_queue.c, tools/ptrace.c, tools/introspection.c)

After a hijacked call the `ulp` tool copies the queue out of the process, interprets it and resets it.  Every ptrace
request is taken to succeed: `write_bytes_ptrace` then changes exactly the bytes it is given, although it writes whole
words (`writeBytesPtrace_eq`).  What the call returned is read from the return register.
-/
namespace Libpulp

open Bytes (Byte Addr Mem Buf)

/-- The loop of `write_bytes_ptrace` over `k` longs; what is left is merged into the long read back from memory. -/
def pokeLongs : Nat → List Byte → Addr → Mem → Mem
  | 0, buf, addr, m     => if buf = [] then m else m.write addr (buf ++ (m.read addr 8).drop buf.length)
  | k + 1, buf, addr, m => pokeLongs k (buf.drop 8) (addr + 8) (m.write addr (buf.take 8))

def writeBytesPtrace (buf : List Byte) (addr : Addr) (m : Mem) : Mem := pokeLongs (buf.length / 8) buf addr m

/-- The tool's `insn_interpret_write`. -/
def toolHandlers : InsnHandlers Mem :=
  { print := fun _ m => m
    write := fun addr bytes size m => (writeBytesPtrace bytes addr m, size) }

/-- `insnq_get_from_remote_process`: the tool's copy has only the bytes the queue says it holds. -/
def insnqGetFromRemoteProcess (q : InsnQueue) : Except UlpError InsnQueue :=
  if insnqCurrVersion < q.version then .error EOLDULP
  else if insnBufferMax < (q.size % 2 ^ 32).toNat then .error EINSNQ
  else .ok { q with buffer := fun i => if i < (q.size % 2 ^ 32).toNat then q.buffer i else 0 }

/-- `insnq_interpret_from_process`; `none` when the interpreter leaves the buffer. -/
def insnqInterpretFromProcess (s : State) : Option (UlpError × State) :=
  match insnqGetFromRemoteProcess s.queue with
  | .error e => some (e, s)
  | .ok q    =>
    match insnqInterpret toolHandlers q s.mem with
    | (_, none)     => none
    | (mem, some e) =>
      if e ≠ ENONE then some (EINSNQ, { s with mem })
      else some (ENONE, { s with mem, queue := { s.queue with size := 0, numInsns := 0 } })

/-- What a function returning an `int` leaves in the return register; the upper half is not part of the result. -/
def returnReg (upper : BitVec 32) (ret : UlpError) : Addr := upper ++ BitVec.ofInt 32 ret

/-- The return register returned as an `int`. -/
def returnInt (rax : Addr) : Int := (rax.setWidth 32).toInt

/-- The end of `apply_patch` and `revert_patches_from_lib`: interpret the queue, return what libpulp returned. -/
def interpretAndReturn (rax : Addr) (s : State) : Option (Int × State) :=
  (insnqInterpretFromProcess s).map (fun (ret, s) =>
    if ret ≠ ENONE ∧ ret ≠ EOLDLIBPULP then (ret, s) else (returnInt rax, s))

/-- `apply_patch` once the routine has stopped: an unchanged return register is taken for a routine that was not run. -/
def applyPatchStopped (oldRax rax : Addr) (s : State) : Option (Int × State) :=
  if rax ≠ 0 ∧ rax ≠ BitVec.ofInt 64 EAGAIN ∧ rax = oldRax then some (EHOOKNOTRUN, s) else interpretAndReturn rax s

/-- `revert_patches_from_lib` once the routine has stopped. -/
def revertPatchesStopped (rax : Addr) (s : State) : Option (Int × State) := interpretAndReturn rax s

/-- `set_metadata_buffer`: `none` if the metadata is too large; what follows it in the buffer stays. -/
def setMetadataBuffer (metadata : List Byte) (s : State) : Option State :=
  if ulpMetadataBufLen ≤ metadata.length then none
  else some { s with metadataBuffer := metadata ++ s.metadataBuffer.drop metadata.length }

/-- `apply_patch` in a hijacked process, where `__ulp_trigger` runs to its `int3`; `oldRax` is the return register of the
interrupted main thread. -/
def applyPatch (env : Env) (upper : BitVec 32) (oldRax : Addr) (metadata : List Byte) (s : State) :
    Option (Int × State) :=
  match setMetadataBuffer metadata s with
  | none   => some (ETARGETHOOK, s)
  | some s => (ulpApplyPatch env s).bind (fun (ret, s) => applyPatchStopped oldRax (returnReg upper ret) s)

/-! ## Words and bytes -/

theorem write_merge (m : Mem) (addr : Addr) (buf : List Byte) :
    m.write addr (buf ++ (m.read addr 8).drop buf.length) = m.write addr buf := by
  funext x
  unfold Mem.write
  by_cases hx : (x - addr).toNat < buf.length
  · rw [List.getElem?_append_left hx]
  · rw [List.getElem?_append_right (by omega), List.getElem?_eq_none (l := buf) (by omega), Option.getD_none,
      List.getElem?_drop, show buf.length + ((x - addr).toNat - buf.length) = (x - addr).toNat by omega]
    by_cases h8 : (x - addr).toNat < 8
    · rw [List.getElem?_eq_getElem (by rw [Mem.length_read]; exact h8), Option.getD_some, Mem.getElem_read,
        BitVec.ofNat_toNat, BitVec.setWidth_eq, BitVec.add_comm, BitVec.sub_add_cancel]
    · rw [List.getElem?_eq_none (by rw [Mem.length_read]; omega), Option.getD_none]

theorem write_nil (m : Mem) (addr : Addr) : m.write addr [] = m := by
  funext x
  simp [Mem.write]

theorem pokeLongs_eq : ∀ (k : Nat) (buf : List Byte) (addr : Addr) (m : Mem), buf.length / 8 = k →
    buf.length ≤ 2 ^ 63 → pokeLongs k buf addr m = m.write addr buf
  | 0, buf, addr, m, hk, _     => by
    rw [pokeLongs]
    split
    · rename_i h
      rw [h, write_nil]
    · exact write_merge m addr buf
  | k + 1, buf, addr, m, hk, h => by
    have ht : (buf.take 8).length = 8 := by rw [List.length_take]; omega
    rw [pokeLongs, pokeLongs_eq k _ _ _ (by rw [List.length_drop]; omega) (by rw [List.length_drop]; omega)]
    have := Mem.write_append m addr (buf.take 8) (buf.drop 8) (by rw [ht, List.length_drop]; omega)
    rw [ht, List.take_append_drop] at this
    exact this

/-- **`write_bytes_ptrace` changes exactly the bytes it is given.** -/
theorem writeBytesPtrace_eq (buf : List Byte) (addr : Addr) (m : Mem) (h : buf.length ≤ 2 ^ 63) :
    writeBytesPtrace buf addr m = m.write addr buf := pokeLongs_eq _ buf addr m rfl h

/-! ## What the tool does with a queue -/

/-- The effect of an instruction on memory. -/
def Insn.applyTo (m : Mem) : Insn → Mem
  | print _     => m
  | write a bs => m.write a bs

theorem encoded_copy {b b' : Buf} {n : Nat} (hb : ∀ i < n, b' i = b i) : ∀ (is : List Insn) (o : Nat),
    o + insnsSize is ≤ n → Encoded b o is → Encoded b' o is
  | [], _, _, _            => trivial
  | i :: is, o, hn, h => by
    rw [insnsSize_cons] at hn
    have := i.length_code_le
    obtain ⟨hi, hok, his⟩ := h
    refine ⟨?_, hok, encoded_copy hb is (o + i.size) (by omega) his⟩
    have hread : b'.read o i.code.length = b.read o i.code.length := Buf.read_congr (fun j hj => hb _ (by omega))
    rw [hread, hi]

theorem exec_eq_applyTo {i : Insn} (h : i.size ≤ insnBufferMax) (m : Mem) : i.exec toolHandlers m = i.applyTo m := by
  cases i with
  | print s => rfl
  | write a bs =>
    have hmax : insnBufferMax = 2097152 := rfl
    simp only [Insn.size] at h
    exact writeBytesPtrace_eq bs a m (by omega)

theorem foldl_exec_eq : ∀ (is : List Insn) (m : Mem), insnsSize is ≤ insnBufferMax →
    is.foldl (Insn.exec toolHandlers) m = is.foldl Insn.applyTo m
  | [], _, _      => rfl
  | i :: is, m, h => by
    rw [insnsSize_cons] at h
    rw [List.foldl_cons, List.foldl_cons, exec_eq_applyTo (by omega), foldl_exec_eq is _ (by omega)]

/-- The tool's copy of a queue holds what the queue holds. -/
theorem insnqGetFromRemoteProcess_holds {r : InsnQueue} {is : List Insn} (h : QueueHolds r is) :
    ∃ q, insnqGetFromRemoteProcess r = .ok q ∧ QueueHolds q is := by
  have hmax : insnBufferMax = 2097152 := rfl
  have hfits := h.fits
  have hsize : (r.size % 2 ^ 32).toNat = insnsSize is := by rw [h.size]; omega
  refine ⟨{ r with buffer := fun i => if i < insnsSize is then r.buffer i else 0 }, ?_, h.version, h.size, h.num, h.fits,
    encoded_copy (n := insnsSize is) (fun i hi => if_pos hi) is 0 (by omega) h.code⟩
  unfold insnqGetFromRemoteProcess
  rw [if_neg (by rw [h.version]; decide), hsize, if_neg (by omega)]

/-- **The tool carries out what is queued, in order, and leaves the queue empty.** -/
theorem insnqInterpretFromProcess_holds {s : State} {is : List Insn} (h : QueueHolds s.queue is) :
    insnqInterpretFromProcess s =
      some (ENONE, { s with mem := is.foldl Insn.applyTo s.mem, queue := { s.queue with size := 0, numInsns := 0 } }) := by
  obtain ⟨q, hget, hcopy⟩ := insnqGetFromRemoteProcess_holds h
  unfold insnqInterpretFromProcess
  rw [hget]
  simp only
  rw [insnqInterpret_holds toolHandlers (fun _ _ _ _ => rfl) hcopy, foldl_exec_eq is _ h.fits]
  rfl

/-- Of libpulp the tool changes the queue only. -/
theorem insnqInterpretFromProcess_outside {s s' : State} {ret : UlpError}
    (h : insnqInterpretFromProcess s = some (ret, s')) : s' = { s with queue := s'.queue, mem := s'.mem } := by
  unfold insnqInterpretFromProcess at h
  split at h
  · cases h
    rfl
  · split at h
    · cases h
    · split at h
      · cases h
        rfl
      · cases h
        rfl

/-! ## Return codes -/

theorem returnInt_returnReg (upper : BitVec 32) {ret : Int} (h : -2 ^ 31 ≤ ret) (h' : ret < 2 ^ 31) :
    returnInt (returnReg upper ret) = ret := by
  unfold returnInt returnReg
  rw [BitVec.setWidth_append_eq_right, BitVec.toInt_ofInt]
  exact Int.bmod_eq_of_le (by omega) (by omega)

theorem interpretAndReturn_holds {s : State} {is : List Insn} (h : QueueHolds s.queue is) (rax : Addr) :
    interpretAndReturn rax s = some (returnInt rax,
      { s with mem := is.foldl Insn.applyTo s.mem, queue := { s.queue with size := 0, numInsns := 0 } }) := by
  unfold interpretAndReturn
  rw [insnqInterpretFromProcess_holds h]
  rfl

end Libpulp
