import Udp2raw.Endpoint.Candidates
import Udp2raw.Endpoint.Reload
import Udp2raw.Endpoint.SharedBudget

/-!
# Histories of the bytes

The histories of the state file are told in documents. A charge reads the bytes and
replaces them: for controllers of host names that can be written, with candidates, what
the bytes say after any calls is the document the history leads to.
-/

namespace Udp2raw

/-- What the call leaves in the file, in bytes. -/
def ChargeCall.contentsAfter (call : ChargeCall) (contents : StateContents) : StateContents :=
  match call.controller.spec.name?, (call.charge (.ofContents contents)).2.2 with
  | some name, [.stateWritten state _] => writtenFile name call.controller.spec.port state
  | _, _ => contents

/-- The bytes after some calls. -/
def contentsAfterCalls (contents : StateContents) : List ChargeCall → StateContents
  | [] => contents
  | call :: calls => contentsAfterCalls (call.contentsAfter contents) calls

/-- The call can write its document: the host name is plain and short, and there is a DNS set. -/
structure ChargeCall.Writable (call : ChargeCall) : Prop where
  host : ∀ name, call.controller.spec.name? = some name → PlainHost name ∧ name.length ≤ 253
  candidates : call.controller.candidates ≠ []

variable {call : ChargeCall} {contents : StateContents}

/-- A charged state can be written and read back. -/
theorem ofContents_charged {name : List UInt8} {loaded : Option FallbackState} {t : FallbackState}
    (hcall : call.Writable) (hname : call.controller.spec.name? = some name)
    (hload : loadFallbackState (.ofContents contents) name call.controller.spec.port
      call.controller.policy.globalCapacity.toNat call.controller.opts.allowPrivate
      call.wallNow.toNat = .ok loaded)
    (ht : precharged (loaded.getD (.new call.controller.policy.globalCapacity.toNat
        call.wallNow.toNat)) call.controller.policy call.wallNow.toNat call.candidate
      call.controller.canonicalCandidates = some t) :
    StateFile.ofContents (writtenFile name call.controller.spec.port t)
      = .document name call.controller.spec.port t := by
  have hwall : call.wallNow.toNat ≤ u64Max := Nat.le_sub_one_of_lt call.wallNow.toNat_lt
  have hset : call.controller.canonicalCandidates ≠ [] :=
    Controller.take_sortDedup_ne_nil hcall.candidates
  obtain ⟨hplain, hlength⟩ := hcall.host name hname
  have hwritten : ∀ s : FallbackState, s.Fits → s.entries.length ≤ maxBudgetEntries →
      s.globalTokens ≤ call.controller.policy.globalCapacity.toNat →
      (∀ e ∈ s.entries, e.dnsSet.length ≤ maxEndpointCandidates) →
      precharged s call.controller.policy call.wallNow.toNat call.candidate
        call.controller.canonicalCandidates = some t →
      StateFile.ofContents (writtenFile name call.controller.spec.port t)
        = .document name call.controller.spec.port t := by
    intro s hfits hlen hcapacity hfew ht
    have hrecorded := precharged_recorded ht
    refine ofContents_writtenFile hplain hlength _ (hfits.charged hcapacity hset hwall ht)
      (hrecorded.length_le hlen) fun e' he' => ?_
    obtain ⟨rfl, -⟩ | ⟨e, he, -, -, -, rfl⟩ | he := hrecorded.mem he'
    · exact List.length_take_le _ _
    · exact hfew e he
    · exact hfew e' he
  cases loaded with
  | none =>
    refine hwritten _ (fits_new _ hwall) (Nat.zero_le _) (Nat.le_refl _) (fun e he => ?_) ht
    cases he
  | some s =>
    obtain ⟨hdocument, -⟩ := loadFallbackState_some hload
    rw [hdocument] at hload
    obtain ⟨-, -, -, hs⟩ := loadFallbackState_eq_some_iff.mp hload
    exact hwritten s (fits_of_ofContents hdocument) hs.few hs.tokens
      (fun e he => BudgetEntry.few_of_loadable (hs.entries e he)) ht

/-- One call does to the bytes what it does to the document. -/
theorem ofContents_contentsAfter (hcall : call.Writable) :
    StateFile.ofContents (call.contentsAfter contents)
      = call.fileAfter (.ofContents contents) := by
  obtain ⟨-, hevents⟩ | ⟨name, loaded, t, hname, hload, ht, hevents⟩ :=
    call.controller.chargeFallback_cases call.wallNow.toNat call.candidate
      ⟨call.locked, .ofContents contents, call.write⟩
  · simp only [ChargeCall.contentsAfter, ChargeCall.fileAfter, ChargeCall.charge, hevents]
    cases call.controller.spec.name? <;> rfl
  · simp only [ChargeCall.contentsAfter, ChargeCall.fileAfter, ChargeCall.charge, hname, hevents]
    exact ofContents_charged hcall hname hload ht

/-- Histories of documents are what happens to the bytes. -/
theorem ofContents_contentsAfterCalls {calls : List ChargeCall}
    (hcalls : ∀ call ∈ calls, call.Writable) :
    StateFile.ofContents (contentsAfterCalls contents calls)
      = fileAfterCalls (.ofContents contents) calls := by
  induction calls generalizing contents with
  | nil => rfl
  | cons call calls ih =>
    rw [contentsAfterCalls, fileAfterCalls, ih fun c hc => hcalls c (List.mem_cons_of_mem _ hc),
      ofContents_contentsAfter (hcalls call List.mem_cons_self)]

end Udp2raw
