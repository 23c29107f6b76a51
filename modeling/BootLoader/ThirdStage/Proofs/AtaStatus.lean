/-
The status protocol of the IDENTIFY command, and where the polling keeps
it.

While BSY is set the other bits mean nothing, and an answer is the first
later status with BSY clear and ERR or DRQ set; an absent drive shows 0.
`ata_identify_disk` never looks at BSY. It takes the first status for a
signed number, so a drive that is busy at once is an error, and it takes
ERR and DRQ as they come, so a busy drive is believed when either is set.
`status_protocol_iff` is what is left: the statuses for which none of this
shows.
-/
import Mathlib.Data.Nat.Find
import BootLoader.ThirdStage.Proofs.AtaTransfer

namespace BootLoader.ThirdStage

open FlatMemory

variable {L : Layout} {l : AtaLabels L} {bus : AtaBus} {s : Ata}
  {status : Nat → BitVec 8} {n : Nat} {ready : Bool}

-- ============================================================= the protocol

/-- A call comes to an end, with this line in the history. -/
def EndsIn (l : AtaLabels L) (bus : AtaBus) (s : Ata) (r : AtaReport) :
    Prop :=
  ∃ fuel s', ata_identify_disk l bus fuel s = some s'
    ∧ s'.reports = s.reports ++ [r]

/-- BSY is clear. -/
def NotBusy (v : BitVec 8) : Prop := ¬ Has ATA_SR_BSY v

/-- A later status with BSY clear has ERR set, and none before it had BSY
clear and DRQ set. A status with both set is an error. -/
def LaterError (status : Nat → BitVec 8) : Prop :=
  ∃ n, 0 < n ∧ NotBusy (status n) ∧ Has ATA_SR_ERR (status n)
    ∧ ∀ k, 0 < k → k < n → NotBusy (status k) → ¬ Has ATA_SR_DRQ (status k)

/-- The statuses stand for an error. -/
def ErrorDue (status : Nat → BitVec 8) : Prop :=
  status 0 = 0#8 ∨ LaterError status

/-- The call reports an error exactly when one is due, stops at no status
with BSY set, and transfers only at one with DRQ set. A report after
`n + 1` statuses is about status `n`. -/
structure StatusProtocol (l : AtaLabels L) (bus : AtaBus) (s : Ata) :
    Prop where
  error : (∃ n, EndsIn l bus s (.error n))
    ↔ ErrorDue (calledDrive l bus s.cpu).status
  busy : ∀ n, EndsIn l bus s (.error (n + 1)) →
    NotBusy ((calledDrive l bus s.cpu).status n)
  transfer : ∀ base selector n buffer,
    EndsIn l bus s (.transfer base selector (n + 1) buffer) →
    NotBusy ((calledDrive l bus s.cpu).status n)
      ∧ Has ATA_SR_DRQ ((calledDrive l bus s.cpu).status n)

/-- The first later status with ERR or DRQ set, if there is one, has BSY
clear. -/
def Orderly (status : Nat → BitVec 8) : Prop :=
  ∀ n, 0 < n →
    (∀ k, 0 < k → k < n →
      ¬ Has ATA_SR_ERR (status k) ∧ ¬ Has ATA_SR_DRQ (status k)) →
    Has ATA_SR_ERR (status n) ∨ Has ATA_SR_DRQ (status n) → NotBusy (status n)

-- ============================================================ where it ends

/-- A call ends where its search does. -/
theorem endsIn_iff (hc : Calls s.cpu) {r : AtaReport} :
    EndsIn l bus s r
      ↔ ∃ n ready, Settles (calledDrive l bus s.cpu).status n ready
        ∧ r = settled l s.cpu n ready := by
  constructor
  · rintro ⟨fuel, s', hcall, hrep⟩
    obtain ⟨n, ready, hsettles, hrep'⟩ := ata_identify_disk_inv hc hcall
    rw [hrep] at hrep'
    have hone := List.append_cancel_left hrep'
    exact ⟨n, ready, hsettles, (List.cons.inj hone).1⟩
  · rintro ⟨n, ready, hsettles, rfl⟩
    obtain ⟨s', hcall, hrep, -⟩ := ata_identify_disk_spec hc hsettles
      (0xB8001 + n) (by omega) (by omega)
    exact ⟨_, s', hcall, hrep⟩

/-- Errors, by the search. -/
theorem ends_in_error_iff (hc : Calls s.cpu) :
    EndsIn l bus s (.error (n + 1))
      ↔ Settles (calledDrive l bus s.cpu).status n false := by
  rw [endsIn_iff hc]
  constructor
  · rintro ⟨m, ready, hsettles, heq⟩
    cases ready with
    | true => cases heq
    | false =>
        cases heq
        exact hsettles
  · exact fun h => ⟨n, false, h, rfl⟩

/-- Transfers, by the search. -/
theorem ends_in_transfer_iff (hc : Calls s.cpu) {base : BitVec 16}
    {selector : BitVec 8} {buffer : BitVec 64} :
    EndsIn l bus s (.transfer base selector (n + 1) buffer)
      ↔ Settles (calledDrive l bus s.cpu).status n true
        ∧ base = channelBase l s.cpu ∧ selector = driveSelector l s.cpu
        ∧ buffer = blockSlot l s.cpu := by
  rw [endsIn_iff hc]
  constructor
  · rintro ⟨m, ready, hsettles, heq⟩
    cases ready with
    | true =>
        cases heq
        exact ⟨hsettles, rfl, rfl, rfl⟩
    | false => cases heq
  · rintro ⟨hsettles, rfl, rfl, rfl⟩
    exact ⟨n, true, hsettles, rfl⟩

/-- The protocol, in terms of the search. -/
theorem statusProtocol_iff_search (hc : Calls s.cpu) :
    StatusProtocol l bus s
      ↔ ((∃ n, Settles (calledDrive l bus s.cpu).status n false)
          ↔ ErrorDue (calledDrive l bus s.cpu).status)
        ∧ (∀ n, Settles (calledDrive l bus s.cpu).status n false →
          NotBusy ((calledDrive l bus s.cpu).status n))
        ∧ ∀ n, Settles (calledDrive l bus s.cpu).status n true →
          NotBusy ((calledDrive l bus s.cpu).status n)
            ∧ Has ATA_SR_DRQ ((calledDrive l bus s.cpu).status n) := by
  have herror : (∃ n, EndsIn l bus s (.error n))
      ↔ ∃ n, Settles (calledDrive l bus s.cpu).status n false := by
    constructor
    · rintro ⟨n, hends⟩
      obtain ⟨m, ready, hsettles, heq⟩ := (endsIn_iff hc).1 hends
      cases ready with
      | true => cases heq
      | false => exact ⟨m, hsettles⟩
    · rintro ⟨n, hsettles⟩
      exact ⟨n + 1, (ends_in_error_iff hc).2 hsettles⟩
  constructor
  · intro h
    refine ⟨herror.symm.trans h.error, fun n hn => ?_, fun n hn => ?_⟩
    · exact h.busy n ((ends_in_error_iff hc).2 hn)
    · exact h.transfer _ _ n _
        ((ends_in_transfer_iff hc).2 ⟨hn, rfl, rfl, rfl⟩)
  · rintro ⟨herr, hbusy, htransfer⟩
    refine ⟨herror.trans herr, fun n hn => ?_, fun base selector n buffer hn =>
      ?_⟩
    · exact hbusy n ((ends_in_error_iff hc).1 hn)
    · exact htransfer n ((ends_in_transfer_iff hc).1 hn).1

-- ========================================================== the first status

/-- The first statuses that end the call: 0, 1, and those with BSY. -/
theorem refused_iff (v : BitVec 8) :
    v.slt 0x2#8 = true ↔ v = 0#8 ∨ v = 1#8 ∨ 0x80#8 ≤ v := by
  revert v
  decide

theorem busy_iff (v : BitVec 8) : Has ATA_SR_BSY v ↔ 0x80#8 ≤ v := by
  revert v
  decide

/-- With a later answer, the search ends where it is. -/
theorem settles_iff (hr : ¬ Refused status) :
    Settles status n ready ↔ 0 < n
      ∧ (∀ k, 0 < k → k < n →
        ¬ Has ATA_SR_ERR (status k) ∧ ¬ Has ATA_SR_DRQ (status k))
      ∧ if ready then
          ¬ Has ATA_SR_ERR (status n) ∧ Has ATA_SR_DRQ (status n)
        else Has ATA_SR_ERR (status n) := by
  unfold Settles
  rw [if_neg hr]

/-- An orderly drive that is not refused has an error reported exactly when
there is one. -/
theorem Orderly.error_iff (h : Orderly status) (hr : ¬ Refused status) :
    (∃ n, Settles status n false) ↔ LaterError status := by
  constructor
  · rintro ⟨n, hn⟩
    obtain ⟨hpos, hbefore, herr⟩ := (settles_iff hr).1 hn
    rw [if_neg Bool.false_ne_true] at herr
    exact ⟨n, hpos, h n hpos hbefore (Or.inl herr), herr,
      fun k hk hkn _ => (hbefore k hk hkn).2⟩
  · rintro ⟨n, hpos, -, herr, hnone⟩
    -- the first status with either bit set
    have hex : ∃ k, 0 < k
        ∧ (Has ATA_SR_ERR (status k) ∨ Has ATA_SR_DRQ (status k)) :=
      ⟨n, hpos, Or.inl herr⟩
    obtain ⟨hmpos, hm⟩ := Nat.find_spec hex
    have hmin : ∀ k, 0 < k → k < Nat.find hex →
        ¬ Has ATA_SR_ERR (status k) ∧ ¬ Has ATA_SR_DRQ (status k) := by
      intro k hk hkm
      have hnot := Nat.find_min hex hkm
      exact not_or.1 fun hor => hnot ⟨hk, hor⟩
    have hle : Nat.find hex ≤ n := Nat.find_min' hex ⟨hpos, Or.inl herr⟩
    generalize Nat.find hex = m at hmpos hm hmin hle
    have hidle := h m hmpos hmin hm
    have herrm : Has ATA_SR_ERR (status m) := by
      rcases Nat.eq_or_lt_of_le hle with rfl | hlt
      · exact herr
      · rcases hm with hm | hm
        · exact hm
        · exact absurd hm (hnone m hmpos hlt hidle)
    refine ⟨m, (settles_iff hr).2 ⟨hmpos, hmin, ?_⟩⟩
    rw [if_neg Bool.false_ne_true]
    exact herrm

-- =============================================================== the result

/-- The protocol is kept exactly when the first status is 0, or 1 with an
error due anyway, or when the drive is not busy at first and its next
answer comes with BSY clear. -/
theorem status_protocol_iff (L : Layout) (l : AtaLabels L) (bus : AtaBus)
    (s : Ata) (hc : Calls s.cpu) :
    StatusProtocol l bus s
      ↔ (calledDrive l bus s.cpu).status 0 = 0#8
        ∨ ((calledDrive l bus s.cpu).status 0 = 1#8
          ∧ LaterError (calledDrive l bus s.cpu).status)
        ∨ (0x2#8 ≤ (calledDrive l bus s.cpu).status 0
          ∧ (calledDrive l bus s.cpu).status 0 < 0x80#8
          ∧ Orderly (calledDrive l bus s.cpu).status) := by
  rw [statusProtocol_iff_search hc]
  generalize (calledDrive l bus s.cpu).status = status
  by_cases hr : Refused status
  · -- an error at once
    have hsettles := hr.settles
    have hends : ∃ n, Settles status n false := ⟨0, hsettles⟩
    have hbusy : (∀ n, Settles status n false → NotBusy (status n))
        ↔ NotBusy (status 0) := by
      constructor
      · exact fun h => h 0 hsettles
      · intro h n hn
        rw [(hn.unique hsettles).1]
        exact h
    have htransfer : ∀ n, Settles status n true →
        NotBusy (status n) ∧ Has ATA_SR_DRQ (status n) :=
      fun n hn => absurd hn hr.not_ready
    have hfirst := (refused_iff (status 0)).1 hr
    rw [hbusy]
    unfold ErrorDue NotBusy
    rw [busy_iff]
    constructor
    · rintro ⟨herr, hidle, -⟩
      rcases hfirst with h0 | h1 | hhigh
      · exact Or.inl h0
      · refine Or.inr (Or.inl ⟨h1, ?_⟩)
        rcases herr.1 hends with h0 | hlater
        · rw [h1] at h0
          cases h0
        · exact hlater
      · exact absurd hhigh hidle
    · rintro (h0 | ⟨h1, hlater⟩ | ⟨hlow, hhigh, -⟩)
      · refine ⟨⟨fun _ => Or.inl h0, fun _ => hends⟩, ?_, htransfer⟩
        rw [h0]
        decide
      · refine ⟨⟨fun _ => Or.inr hlater, fun _ => hends⟩, ?_, htransfer⟩
        rw [h1]
        decide
      · exfalso
        have hlt := BitVec.lt_def.1 hhigh
        have hle := BitVec.le_def.1 hlow
        rcases hfirst with h0 | h1 | hle'
        · rw [h0] at hle
          exact absurd hle (by decide)
        · rw [h1] at hle
          exact absurd hle (by decide)
        · have hge := BitVec.le_def.1 hle'
          omega
  · -- the polling decides
    have hfirst := mt (refused_iff (status 0)).2 hr
    obtain ⟨h0, hrest⟩ := not_or.1 hfirst
    obtain ⟨h1, hhigh⟩ := not_or.1 hrest
    have hrange : 0x2#8 ≤ status 0 ∧ status 0 < 0x80#8 := by
      refine ⟨?_, BitVec.not_le.1 hhigh⟩
      have hne0 : (status 0).toNat ≠ 0 :=
        fun h => h0 (BitVec.eq_of_toNat_eq h)
      have hne1 : (status 0).toNat ≠ 1 :=
        fun h => h1 (BitVec.eq_of_toNat_eq h)
      rw [BitVec.le_def]
      show 2 ≤ (status 0).toNat
      omega
    have hright : (status 0 = 0#8 ∨ (status 0 = 1#8 ∧ LaterError status)
        ∨ (0x2#8 ≤ status 0 ∧ status 0 < 0x80#8 ∧ Orderly status))
        ↔ Orderly status := by
      constructor
      · rintro (h | ⟨h, -⟩ | ⟨-, -, h⟩)
        · exact absurd h h0
        · exact absurd h h1
        · exact h
      · exact fun h => Or.inr (Or.inr ⟨hrange.1, hrange.2, h⟩)
    rw [hright]
    constructor
    · rintro ⟨-, hbusy, htransfer⟩ n hpos hbefore hanswer
      by_cases herr : Has ATA_SR_ERR (status n)
      · refine hbusy n ((settles_iff hr).2 ⟨hpos, hbefore, ?_⟩)
        rw [if_neg Bool.false_ne_true]
        exact herr
      · refine (htransfer n ((settles_iff hr).2 ⟨hpos, hbefore, ?_⟩)).1
        rw [if_pos rfl]
        exact ⟨herr, hanswer.resolve_left herr⟩
    · intro h
      refine ⟨?_, fun n hn => ?_, fun n hn => ?_⟩
      · rw [h.error_iff hr]
        exact ⟨Or.inr, fun hdue => hdue.resolve_left h0⟩
      · obtain ⟨hpos, hbefore, herr⟩ := (settles_iff hr).1 hn
        rw [if_neg Bool.false_ne_true] at herr
        exact h n hpos hbefore (Or.inl herr)
      · obtain ⟨hpos, hbefore, hend⟩ := (settles_iff hr).1 hn
        rw [if_pos rfl] at hend
        exact ⟨h n hpos hbefore (Or.inr hend.2), hend.2⟩

-- ============================================================== instances

/-- A call for the first position, of a program with an empty data
segment. -/
def ataStart : Ata where
  cpu := ⟨fun r => if r = .rsp then 0xB000#64 else 0#64, fun _ => 0#8, []⟩
  port := fun _ => 0#8
  polls := 0
  words := 0
  reports := []

theorem ataStart_calls : Calls ataStart.cpu :=
  ⟨by decide, by decide, by decide⟩

/-- Every drive answers with the same statuses. -/
def statusBus (status : Nat → BitVec 8) : AtaBus :=
  fun _ _ => ⟨status, fun _ => 0#16⟩

/-- A drive that is ready from the first status on. -/
theorem status_protocol_iff_sample :
    StatusProtocol ataLabels (statusBus fun _ => 0x58#8) ataStart := by
  refine (status_protocol_iff assembledLayout ataLabels
    (statusBus fun _ => 0x58#8) ataStart ataStart_calls).2 ?_
  refine Or.inr (Or.inr ⟨by decide, by decide, fun n _ _ _ => ?_⟩)
  show NotBusy 0x58#8
  unfold NotBusy
  decide

/-- A drive that is busy with the command, and ready from then on. -/
def busyFirst (k : Nat) : BitVec 8 := if k = 0 then 0xD0#8 else 0x58#8

/-- It is reported as an error. -/
theorem busy_drive_refused : ¬ ∀ (L : Layout) (l : AtaLabels L)
    (bus : AtaBus) (s : Ata), Calls s.cpu → StatusProtocol l bus s := by
  intro h
  have hprotocol := h assembledLayout ataLabels (statusBus busyFirst) ataStart
    ataStart_calls
  have hrefused : Refused busyFirst := by
    unfold Refused
    decide
  have hends : EndsIn ataLabels (statusBus busyFirst) ataStart (.error 1) :=
    (ends_in_error_iff ataStart_calls).2 hrefused.settles
  have hidle : NotBusy 0xD0#8 := hprotocol.busy 0 hends
  exact hidle (by decide)

end BootLoader.ThirdStage
