import OtiKiosk.Demo.Loop

/-!
States in which the demo hangs for good. `main` acts on a state when it enters it, and
leaves `ST_INIT` and `ST_TRANS_COMPLETE` only by what it did then; when `new_state` is
the state it is in already, nothing happens any more. So it is in `ST_MESSAGE` when
the time at which the message expires cannot be passed, and in `ST_TRANS` when the
transaction is over and its completion was never reported.
-/

namespace OtiKiosk

/-- The steps of the loop outside of what it does in a state. -/
def MainPc.turning : MainPc → Prop
  | .checkStatus | .lostTest | .stateTest | .interruptTest | .service | .flagTest
  | .expirationTest => True
  | _ => False

instance : DecidablePred MainPc.turning
  | .checkStatus | .lostTest | .stateTest | .interruptTest | .service | .flagTest
  | .expirationTest => isTrue trivial
  | .lostCheck | .lostInit | .assign | .getKioskId | .getKioskVersion | .getReaderVersion
  | .initIdle | .showWelcome | .idleExpiration | .preAuthorize | .preAuthorizeReturn
  | .showFailed | .startFailed | .completeClear | .completeJson | .completeTest | .showApproved
  | .settle | .showStatus | .completeDone | .messageExpiration | .setTrans | .setIdle => isFalse id

namespace Demo

/-- The kiosk is reachable and does what it is asked for. -/
def Friendly (s : Demo) : Action → Prop
  | .status ret status => ret = .ok ∧ status ≠ .noKiosk
  | .result ret => ret = .ok
  | .completion _ => 0 < s.running
  | .kioskRefuses | .completionLost => False
  | .main | .kioskStarts | .callback | .established _ | .closed _ | .writeable _ | .interrupt
  | .tick => True

/-- `main` will set `new_state` to `ST_INIT`, as the kiosk was lost. -/
def Lost (s : Demo) : Prop :=
  s.pc = .lostCheck ∨ s.pc = .lostInit ∨ s.pc = .lostTest ∧ s.lastStatus = .noKiosk

instance : DecidablePred Lost := fun _ => inferInstanceAs (Decidable (_ ∨ _ ∨ _))

/-- The expiration times that `get_time_sec` is never greater than. -/
def Endless (expiration : BitVec 32) : Prop := expiration = 0 ∨ expiration = BitVec.allOnes 32

instance : DecidablePred Endless := fun _ => inferInstanceAs (Decidable (_ ∨ _))

/-- No transaction will be reported, unless another one is asked for. -/
structure Forsaken (s : Demo) : Prop where
  requested : s.requested = 0
  running : s.running = 0
  callback : s.callback = .idle

/-- Nothing that happens in the current state changes `new_state`. -/
def Stuck (s : Demo) : Prop :=
  s.curState = .init ∧ s.callback ≠ .write ∨
    s.curState = .message ∧ s.callback ≠ .write ∧ Endless s.timeStateExpiration ∨
    s.curState = .transComplete ∨
    s.curState = .trans ∧ s.Forsaken

inductive Hung (s : Demo) : Prop
  /-- `ST_INIT` is entered from itself, which is to do nothing. -/
  | lost : s.Lost → s.curState = .init → s.callback ≠ .write → Hung s
  | stuck : s.pc.turning → ¬s.Lost → s.newState = s.curState → s.Stuck → Hung s
  /-- The transaction is over before `PreAuthorize` returns. -/
  | ended : s.pc = .preAuthorizeReturn → s.curState = .trans → s.newState = .trans → s.Forsaken →
      Hung s

variable {s s' : Demo} {a : Action}

theorem Stuck.ne_idle (h : s.Stuck) : s.curState ≠ .idle := by
  rcases h with ⟨hcur, -⟩ | ⟨hcur, -⟩ | hcur | ⟨hcur, -⟩ <;> rw [hcur] <;> nofun

theorem Stuck.forsaken (h : s.Stuck) (htrans : s.curState = .trans) : s.Forsaken := by
  rcases h with ⟨hcur, -⟩ | ⟨hcur, -⟩ | hcur | ⟨-, hforsaken⟩
  · cases htrans.symm.trans hcur
  · cases htrans.symm.trans hcur
  · cases htrans.symm.trans hcur
  · exact hforsaken

theorem Hung.ne_idle (h : Hung s) : s.curState ≠ .idle := by
  cases h with
  | lost _ hcur _ =>
      rw [hcur]
      nofun
  | stuck _ _ _ hstuck => exact hstuck.ne_idle
  | ended _ hcur _ _ =>
      rw [hcur]
      nofun

/-- A message that is endless does not expire. -/
theorem Stuck.not_expired (h : s.Stuck) :
    ¬(0 < s.timeStateExpiration ∧ s.timeStateExpiration < getTimeSec s.clock ∧
      s.curState = .message) := by
  rintro ⟨hpos, hlt, hcur⟩
  rcases h with ⟨hinit, -⟩ | ⟨-, -, hendless⟩ | hcomplete | ⟨htrans, -⟩
  · cases hcur.symm.trans hinit
  · rcases hendless with hzero | hones
    · rw [hzero] at hpos
      exact absurd hpos (by decide)
    · have hbound := (getTimeSec s.clock).isLt
      rw [hones, BitVec.lt_def, BitVec.toNat_allOnes] at hlt
      omega
  · cases hcur.symm.trans hcomplete
  · cases hcur.symm.trans htrans

/-- Steps that leave the state, and the callback at most further from a write. -/
theorem Stuck.mono (h : s.Stuck) (hcur : s'.curState = s.curState)
    (hexpiration : s'.timeStateExpiration = s.timeStateExpiration)
    (hcallback : s.callback ≠ .write → s'.callback ≠ .write)
    (hforsaken : s.Forsaken → s'.Forsaken) : s'.Stuck := by
  rw [Stuck, hcur, hexpiration]
  rcases h with ⟨hinit, hwrite⟩ | ⟨hmessage, hwrite, hendless⟩ | hcomplete | ⟨htrans, hnone⟩
  · exact .inl ⟨hinit, hcallback hwrite⟩
  · exact .inr (.inl ⟨hmessage, hcallback hwrite, hendless⟩)
  · exact .inr (.inr (.inl hcomplete))
  · exact .inr (.inr (.inr ⟨htrans, hforsaken hnone⟩))

theorem Stuck.same (h : s.Stuck) (hcur : s'.curState = s.curState)
    (hexpiration : s'.timeStateExpiration = s.timeStateExpiration)
    (hcallback : s'.callback = s.callback) (hrequested : s'.requested = s.requested)
    (hrunning : s'.running = s.running) : s'.Stuck := by
  refine h.mono hcur hexpiration ?_ fun hnone => ⟨?_, ?_, ?_⟩
  · rw [hcallback]
    exact id
  · exact hrequested.trans hnone.requested
  · exact hrunning.trans hnone.running
  · exact hcallback.trans hnone.callback

/-- Where `main` goes when there is nothing to do. -/
theorem turning_goes {pc pc' : MainPc} (hpc : s.pc = pc) (hturning : pc.turning) (hlost : ¬s.Lost)
    (hsame : s.newState = s.curState) (hstuck : s.Stuck) (hgoes : Goes s pc pc') :
    pc'.turning ∧ pc' ≠ .lostTest ∧ pc' ≠ .lostCheck ∧ pc' ≠ .lostInit := by
  cases hgoes with
  | lost hstatus => exact (hlost (.inr (.inr ⟨hpc, hstatus⟩))).elim
  | change hne => exact (hne hsame).elim
  | approved _ => exact hturning.elim
  | notApproved _ => exact hturning.elim
  | requested _ hidle => exact (hstuck.ne_idle hidle).elim
  | expired hpos hlt hcur => exact (hstuck.not_expired ⟨hpos, hlt, hcur⟩).elim
  | _ => exact ⟨trivial, nofun, nofun, nofun⟩

/-- The loop turns for ever. -/
theorem stuck_step (hturning : s.pc.turning) (hlost : ¬s.Lost) (hsame : s.newState = s.curState)
    (hstuck : s.Stuck) (hg : Friendly s a) (hs : Transition s a s') : Hung s' := by
  have hoff : ∀ {pc}, s.pc = pc → ¬pc.turning → Hung s' := fun hpc hne =>
    (hne (hpc ▸ hturning)).elim
  have hstay : ∀ t : Demo, t.pc = s.pc → t.lastStatus = s.lastStatus → ¬t.Lost := by
    intro t hpc hstatus
    rw [Lost, hpc, hstatus]
    exact hlost
  cases hs with
  | goes hpc hgoes =>
      have hturn : _ ∧ _ := turning_goes hpc (hpc ▸ hturning) hlost hsame hstuck hgoes
      obtain ⟨hturning', htest, hcheck, hinit⟩ := hturn
      refine .stuck hturning' ?_ hsame (hstuck.same rfl rfl rfl rfl rfl)
      rintro (hpc' | hpc' | ⟨hpc', -⟩)
      · exact hcheck hpc'
      · exact hinit hpc'
      · exact htest hpc'
  | sets hpc hsets => exact hoff hpc (by cases hsets <;> exact id)
  | shows line1 line2 hpc hshows => exact hoff hpc (by cases hshows <;> exact id)
  | returns hpc hreturns =>
      refine hoff hpc ?_
      cases hreturns with
      | initFailed _ hinit => rcases hinit with rfl | rfl | rfl <;> exact id
      | _ => exact id
  | status ret status hpc =>
      refine .stuck trivial ?_ hsame (hstuck.same rfl rfl rfl rfl rfl)
      rintro (hfalse | hfalse | ⟨-, hstatus⟩)
      · cases hfalse
      · cases hfalse
      · obtain ⟨rfl, hfound⟩ := hg
        exact hfound hstatus
  | statusAgain ret status hpc => exact hoff hpc id
  | assign hpc => exact hoff hpc id
  | expiration hpc => exact hpc.elim (fun hpc => hoff hpc id) fun hpc => hoff hpc id
  | preAuthorize hpc => exact hoff hpc id
  | accepted hpc => exact hoff hpc id
  | completeClear hpc => exact hoff hpc id
  | completeJson hpc => exact hoff hpc id
  | settle hpc => exact hoff hpc id
  -- what a forsaken `main` waits for does not happen
  | kioskStarts hrequested =>
      refine .stuck hturning (hstay _ rfl rfl) hsame (hstuck.mono rfl rfl id fun hnone => ?_)
      exact (hrequested.ne' hnone.requested).elim
  | kioskRefuses _ => exact hg.elim
  | completionLost _ => exact hg.elim
  | completion resp _ =>
      refine .stuck hturning (hstay _ rfl rfl) hsame (hstuck.mono rfl rfl (fun _ => nofun) ?_)
      exact fun hnone => (Nat.ne_of_gt hg hnone.running).elim
  | callbackTrue hcallback hcur => cases hcallback.symm.trans (hstuck.forsaken hcur).callback
  | callbackFalse hcallback _ =>
      refine .stuck hturning (hstay _ rfl rfl) hsame (hstuck.mono rfl rfl (fun _ => nofun) ?_)
      exact fun hnone => by cases hcallback.symm.trans hnone.callback
  | callbackWrite hwrite =>
      rcases hstuck with ⟨-, hne⟩ | ⟨-, hne, -⟩ | hcomplete | ⟨-, hnone⟩
      · exact (hne hwrite).elim
      · exact (hne hwrite).elim
      · exact .stuck hturning (hstay _ rfl rfl) hcomplete.symm (.inr (.inr (.inl hcomplete)))
      · cases hwrite.symm.trans hnone.callback
  | _ => exact .stuck hturning (hstay _ rfl rfl) hsame (hstuck.same rfl rfl rfl rfl rfl)

/-- The kiosk is found again, and `ST_INIT` is not entered. -/
theorem lost_step (hlost : s.Lost) (hcur : s.curState = .init) (hcallback : s.callback ≠ .write)
    (hs : Transition s a s') : Hung s' := by
  -- as long as the kiosk is lost, `main` stands at one of three points
  have hoff : ∀ {pc}, s.pc = pc → pc ≠ .lostCheck ∧ pc ≠ .lostInit ∧ pc ≠ .lostTest → Hung s' := by
    rintro pc hpc ⟨hcheck, hinit, htest⟩
    rcases hlost with hpc' | hpc' | ⟨hpc', -⟩
    · exact (hcheck (hpc.symm.trans hpc')).elim
    · exact (hinit (hpc.symm.trans hpc')).elim
    · exact (htest (hpc.symm.trans hpc')).elim
  have hstay : ∀ t : Demo, t.pc = s.pc → t.lastStatus = s.lastStatus → t.Lost := by
    intro t hpc hstatus
    rw [Lost, hpc, hstatus]
    exact hlost
  cases hs with
  | goes hpc hgoes =>
      cases hgoes with
      | lost _ => exact .lost (.inl rfl) hcur hcallback
      | found hfound =>
          rcases hlost with hpc' | hpc' | ⟨-, hstatus⟩
          · cases hpc.symm.trans hpc'
          · cases hpc.symm.trans hpc'
          · exact (hfound hstatus).elim
      | _ => exact hoff hpc ⟨nofun, nofun, nofun⟩
  | sets hpc hsets =>
      cases hsets with
      | lostInit =>
          -- the inner loop goes on, or ends with `ST_INIT` as both states
          by_cases hstatus : s.lastStatus = .noKiosk
          · exact .lost (.inr (.inr ⟨rfl, hstatus⟩)) hcur hcallback
          · refine .stuck trivial ?_ hcur.symm (.inl ⟨hcur, hcallback⟩)
            rintro (hfalse | hfalse | ⟨-, hstatus'⟩)
            · cases hfalse
            · cases hfalse
            · exact hstatus hstatus'
      | _ => exact hoff hpc ⟨nofun, nofun, nofun⟩
  | shows line1 line2 hpc hshows => exact hoff hpc (by cases hshows <;> exact ⟨nofun, nofun, nofun⟩)
  | returns hpc hreturns =>
      refine hoff hpc ?_
      cases hreturns with
      | initFailed _ hinit => rcases hinit with rfl | rfl | rfl <;> exact ⟨nofun, nofun, nofun⟩
      | _ => exact ⟨nofun, nofun, nofun⟩
  | status ret status hpc => exact hoff hpc ⟨nofun, nofun, nofun⟩
  | statusAgain ret status hpc => exact .lost (.inr (.inl rfl)) hcur hcallback
  | assign hpc => exact hoff hpc ⟨nofun, nofun, nofun⟩
  | expiration hpc =>
      exact hpc.elim (fun hpc => hoff hpc ⟨nofun, nofun, nofun⟩) fun hpc =>
        hoff hpc ⟨nofun, nofun, nofun⟩
  | preAuthorize hpc => exact hoff hpc ⟨nofun, nofun, nofun⟩
  | accepted hpc => exact hoff hpc ⟨nofun, nofun, nofun⟩
  | completeClear hpc => exact hoff hpc ⟨nofun, nofun, nofun⟩
  | completeJson hpc => exact hoff hpc ⟨nofun, nofun, nofun⟩
  | settle hpc => exact hoff hpc ⟨nofun, nofun, nofun⟩
  | callbackTrue _ htrans => cases hcur.symm.trans htrans
  | callbackWrite hwrite => exact (hcallback hwrite).elim
  | completion resp _ => exact .lost (hstay _ rfl rfl) hcur nofun
  | callbackFalse _ _ => exact .lost (hstay _ rfl rfl) hcur nofun
  | _ => exact .lost (hstay _ rfl rfl) hcur hcallback

/-- `PreAuthorize` succeeds, and `main` waits for a completion that never comes. -/
theorem ended_step (hpc : s.pc = .preAuthorizeReturn) (hcur : s.curState = .trans)
    (hnew : s.newState = .trans) (hnone : s.Forsaken) (hg : Friendly s a)
    (hs : Transition s a s') : Hung s' := by
  cases hs with
  | returns hpc' hreturns =>
      rw [← hpc', hpc] at hreturns
      cases hreturns with
      | notStarted hret => exact (hret hg).elim
      | initFailed _ hinit => rcases hinit with hinit | hinit | hinit <;> cases hinit
  | accepted _ =>
      refine .stuck trivial ?_ (hnew.trans hcur.symm) (.inr (.inr (.inr ⟨hcur, ?_⟩)))
      · rintro (hlost | hlost | ⟨hlost, -⟩) <;> cases hlost
      · exact ⟨hnone.requested, hnone.running, hnone.callback⟩
  | kioskStarts hrequested => exact (hrequested.ne' hnone.requested).elim
  | kioskRefuses _ => exact hg.elim
  | completion resp _ => exact (Nat.ne_of_gt hg hnone.running).elim
  | completionLost _ => exact hg.elim
  | callbackTrue hcallback _ => cases hcallback.symm.trans hnone.callback
  | callbackFalse hcallback _ => cases hcallback.symm.trans hnone.callback
  | callbackWrite hcallback => cases hcallback.symm.trans hnone.callback
  | interrupt => exact .ended hpc hcur hnew ⟨hnone.requested, hnone.running, hnone.callback⟩
  | tick => exact .ended hpc hcur hnew ⟨hnone.requested, hnone.running, hnone.callback⟩
  -- everything else is done at other steps of `main`
  | goes hpc' hgoes =>
      rw [← hpc', hpc] at hgoes
      cases hgoes
  | sets hpc' hsets =>
      rw [← hpc', hpc] at hsets
      cases hsets
  | shows _ _ hpc' hshows =>
      rw [← hpc', hpc] at hshows
      cases hshows
  | expiration hpc' => rcases hpc' with hpc' | hpc' <;> cases hpc.symm.trans hpc'
  | status _ _ hpc' => cases hpc.symm.trans hpc'
  | statusAgain _ _ hpc' => cases hpc.symm.trans hpc'
  | assign hpc' => cases hpc.symm.trans hpc'
  | preAuthorize hpc' => cases hpc.symm.trans hpc'
  | completeClear hpc' => cases hpc.symm.trans hpc'
  | completeJson hpc' => cases hpc.symm.trans hpc'
  | settle hpc' => cases hpc.symm.trans hpc'
  | established _ hpc' _ => cases hpc.symm.trans hpc'
  | closed _ hpc' _ => cases hpc.symm.trans hpc'
  | writeable _ hpc' _ => cases hpc.symm.trans hpc'

/-- A demo that hangs never gets back to `ST_IDLE`. -/
theorem Hung.leads (h : Hung s) (hl : machine.Leads Friendly s s') : Hung s' := by
  apply hl.invariant (I := Hung) _ h
  intro s a s' h hg hstep
  cases h with
  | lost hlost hcur hcallback => exact lost_step hlost hcur hcallback (transition_of_step hstep)
  | stuck hturning hlost hsame hstuck =>
      exact stuck_step hturning hlost hsame hstuck hg (transition_of_step hstep)
  | ended hpc hcur hnew hnone => exact ended_step hpc hcur hnew hnone hg (transition_of_step hstep)

end Demo

end OtiKiosk
