import OtiKiosk.Demo.Loop
import OtiKiosk.Lib.Ledger

/-!
When approved pre-authorizations are settled. The accounts of the demo are read off
its history. Nothing in the program keeps a response from being overwritten, or a
change of state from being lost, so the accounts are in order in the runs in which
neither happens; there the demo follows the phases of the accounts one by one.
-/

namespace OtiKiosk

open Ledger

def DemoEvent.entry : DemoEvent → Option (Entry Bytes)
  | .sent (.preAuthorize _) => some .opened
  | .sent (.confirmTransaction _ _ _ reference) | .sent (.voidTransaction reference) =>
      some (.settled reference.bytes)
  | .completed resp => if resp.status.approved then some (.due resp.reference.bytes) else none
  | .sent (.showMessage _ _) | .sent (.payTransaction _) | .accepted | .established _ | .closed _ =>
      none

def MainPc.untested : MainPc → Prop
  | .completeClear | .completeJson | .completeTest => True
  | _ => False

instance : DecidablePred MainPc.untested
  | .completeClear | .completeJson | .completeTest => isTrue trivial
  | .checkStatus | .lostTest | .lostCheck | .lostInit | .stateTest | .assign | .getKioskId
  | .getKioskVersion | .getReaderVersion | .initIdle | .showWelcome | .idleExpiration
  | .preAuthorize | .preAuthorizeReturn | .showFailed | .startFailed | .showApproved | .settle
  | .showStatus | .completeDone | .messageExpiration | .interruptTest | .service | .flagTest
  | .setTrans | .expirationTest | .setIdle => isFalse id

/-- The steps from there to the settlement. -/
def MainPc.settling (pc : MainPc) : Prop := pc.untested ∨ pc = .showApproved ∨ pc = .settle

instance : DecidablePred MainPc.settling := fun _ => inferInstanceAs (Decidable (_ ∨ _ ∨ _))

namespace Demo

def entries (s : Demo) : List (Entry Bytes) := s.history.filterMap DemoEvent.entry

/-- The reference of an approved completion that was not settled yet. -/
def owed (s : Demo) : Option Bytes :=
  match phase s.entries with
  | some (.owed ref) => some ref
  | _ => none

/-- An approved completion will be looked at. -/
def Awaited (s : Demo) : Prop :=
  s.curState = .trans ∧ s.pc ≠ .preAuthorize ∨ s.pc.untested

def Action.response : Action → Option PaymentResponse
  | .completion resp => some resp
  | _ => none

/-- No approved completion comes out of its turn, is overwritten, or is forgotten. -/
structure Attended (s : Demo) (a : Action) : Prop where
  completion : ∀ resp ∈ a.response, (resp.status.approved → Awaited s) ∧
    ∀ ref ∈ s.owed, resp.status.approved ∧ resp.reference.bytes = ref
  /-- `new_state` is not overwritten. -/
  keep : a = .main → s.pc = .lostInit ∨ s.pc = .startFailed → s.owed = none
  /-- The callback is not overtaken. -/
  assign : a = .main → s.pc = .assign → s.callback ≠ .idle →
    s.lastPaymentResponse.status.approved → s.newState = .transComplete ∧ s.callback = .test

instance (s : Demo) : Decidable s.Awaited := inferInstanceAs (Decidable (_ ∧ _ ∨ _))

instance (s : Demo) (a : Action) : Decidable (Attended s a) :=
  decidable_of_iff
    ((∀ resp ∈ a.response, (resp.status.approved → Awaited s) ∧
        ∀ ref ∈ s.owed, resp.status.approved ∧ resp.reference.bytes = ref) ∧
      (a = .main → s.pc = .lostInit ∨ s.pc = .startFailed → s.owed = none) ∧
      (a = .main → s.pc = .assign → s.callback ≠ .idle →
        s.lastPaymentResponse.status.approved → s.newState = .transComplete ∧ s.callback = .test))
    ⟨fun h => ⟨h.1, h.2.1, h.2.2⟩, fun h => ⟨h.completion, h.keep, h.assign⟩⟩

/-! ### The phases -/

/-- Nothing is owed, and no transaction is under way. -/
structure Away (s : Demo) : Prop where
  curState : s.curState ≠ .trans
  pc : ¬s.pc.settling
  newState : s.newState = .transComplete → s.curState = .transComplete ∧ s.pc ≠ .assign
  callback : s.callback ≠ .write

structure Asking (s : Demo) : Prop where
  pc : s.pc = .preAuthorize
  status : s.callback ≠ .idle ∨ s.newState = .transComplete →
    ¬s.lastPaymentResponse.status.approved

/-- The response will be taken for that of the transaction. -/
def Ahead (s : Demo) : Prop :=
  s.callback = .write ∨ s.callback = .test ∧ s.curState = .trans ∨
    s.newState = .transComplete ∧ (s.curState ≠ .transComplete ∨ s.pc = .assign) ∨ s.pc.untested

/-- `PreAuthorize` was sent, and nothing is owed. -/
structure Opened (s : Demo) : Prop where
  pc : s.pc ≠ .showApproved ∧ s.pc ≠ .settle
  status : s.Ahead → ¬s.lastPaymentResponse.status.approved

/-- A completion waits to be settled. -/
structure Owes (s : Demo) (ref : Bytes) : Prop where
  status : s.lastPaymentResponse.status.approved
  reference : s.lastPaymentResponse.reference.bytes = ref
  place : s.curState = .trans ∧ s.pc ≠ .preAuthorize ∧
      (s.callback ≠ .idle ∨ s.newState = .transComplete) ∨
    s.callback ≠ .write ∧ s.pc.settling

/-- The demo is where the accounts are. -/
inductive Books (s : Demo) : Phase Bytes → Prop
  | away : Away s → Books s .closed
  | asking : Asking s → Books s .closed
  | opened : Opened s → Books s .opened
  | owes {ref : Bytes} : Owes s ref → Books s (.owed ref)

def Follows (s : Demo) : Prop := ∃ p, phase s.entries = some p ∧ Books s p

variable {s s' : Demo} {a : Action}

theorem follows_of_entries {p : Phase Bytes} (hphase : phase s.entries = some p)
    (hentries : s'.entries = s.entries) (hbooks : Books s' p) : Follows s' :=
  ⟨p, by rw [hentries, hphase], hbooks⟩

theorem follows_of_entry {p q : Phase Bytes} {e : Entry Bytes} (hphase : phase s.entries = some p)
    (hentries : s'.entries = e :: s.entries) (hnext : p.next e = some q) (hbooks : Books s' q) :
    Follows s' :=
  ⟨q, by rw [hentries, phase, hphase]; exact hnext, hbooks⟩

theorem owed_of_phase {ref : Bytes} (h : phase s.entries = some (.owed ref)) : ref ∈ s.owed := by
  rw [owed, h]
  rfl

theorem entries_declined {resp : PaymentResponse} (h : ¬resp.status.approved) :
    DemoEvent.entry (.completed resp) = none := if_neg h

theorem entries_approved {resp : PaymentResponse} (h : resp.status.approved) :
    DemoEvent.entry (.completed resp) = some (.due resp.reference.bytes) := if_pos h

theorem settling_entry {state : DemoState} (h : (entry state).settling) :
    state = .transComplete := by
  cases state with
  | transComplete => rfl
  | _ => exact (h.elim id (fun h => h.elim nofun nofun)).elim

/-! ### Steps with nothing owed -/

theorem Away.mono (h : Away s) (hcur : s'.curState = s.curState) (hpc : ¬s'.pc.settling)
    (hnew : s'.newState = .transComplete → s.newState = .transComplete ∧ s'.pc ≠ .assign)
    (hcallback : s'.callback ≠ .write) : Away s' where
  curState := by
    rw [hcur]
    exact h.curState
  pc := hpc
  newState := by
    intro hstate
    obtain ⟨hstate, hassign⟩ := hnew hstate
    rw [hcur]
    exact ⟨(h.newState hstate).1, hassign⟩
  callback := hcallback

theorem Away.goes (h : Away s) {pc pc' : MainPc} (hpc : s.pc = pc) (hgoes : Goes s pc pc') :
    Away { s with pc := pc' } := by
  have hsettling := h.pc
  rw [hpc] at hsettling
  refine h.mono rfl ?_ (fun hstate => ⟨hstate, ?_⟩) h.callback
  · change ¬pc'.settling
    cases hgoes with
    | approved _ => exact (hsettling (.inl trivial)).elim
    | notApproved _ => exact (hsettling (.inl trivial)).elim
    | _ => rintro (hfalse | hfalse | hfalse) <;> cases hfalse
  · change pc' ≠ .assign
    cases hgoes with
    | change hne => exact (hne (hstate.trans (h.newState hstate).1.symm)).elim
    | _ => nofun

theorem Away.assign (h : Away s) (hpc : s.pc = .assign) (hg : Attended s .main) :
    Books { s with pc := entry s.newState, curState := s.newState } .closed := by
  have hnew : s.newState ≠ .transComplete := fun hstate => (h.newState hstate).2 hpc
  by_cases htrans : s.newState = .trans
  · refine .asking ⟨by rw [htrans]; rfl, ?_⟩
    rintro (hcallback | hstate) happroved
    · exact hnew (hg.assign rfl hpc hcallback happroved).1
    · exact hnew hstate
  · exact .away ⟨htrans, fun hsettling => hnew (settling_entry hsettling),
      fun hstate => (hnew hstate).elim, h.callback⟩

theorem away_step (h : Away s) (hlocated : Located s) (hphase : phase s.entries = some .closed)
    (hg : Attended s a) (hs : Transition s a s') : Follows s' := by
  have hstay : ∀ {pc}, s.pc = pc → home pc ≠ some .trans := fun hpc hhome =>
    h.curState (hlocated.at_pc hpc hhome)
  have hsettling : ∀ {pc}, s.pc = pc → ¬pc.settling := fun hpc hpc' => h.pc (hpc ▸ hpc')
  cases hs with
  | goes hpc hgoes => exact follows_of_entries hphase rfl (.away (h.goes hpc hgoes))
  | sets hpc hsets =>
      refine follows_of_entries hphase rfl (.away (h.mono rfl ?_ ?_ h.callback))
      · cases hsets <;> rintro (hfalse | hfalse | hfalse) <;> cases hfalse
      · cases hsets <;> nofun
  | shows line1 line2 hpc hshows =>
      refine follows_of_entries hphase rfl (.away (h.mono rfl ?_ ?_ h.callback))
      · cases hshows with
        | approved => exact (hsettling hpc (.inr (.inl rfl))).elim
        | _ => rintro (hfalse | hfalse | hfalse) <;> cases hfalse
      · exact fun hstate => ⟨hstate, by cases hshows <;> nofun⟩
  | returns hpc hreturns =>
      refine follows_of_entries hphase rfl (.away (h.mono rfl ?_ ?_ h.callback))
      · cases hreturns <;> rintro (hfalse | hfalse | hfalse) <;> cases hfalse
      · exact fun hstate => ⟨hstate, by cases hreturns <;> nofun⟩
  | status ret status hpc =>
      refine follows_of_entries hphase rfl (.away (h.mono rfl ?_ ?_ h.callback))
      · rintro (hfalse | hfalse | hfalse) <;> cases hfalse
      · exact fun hstate => ⟨hstate, nofun⟩
  | statusAgain ret status hpc =>
      refine follows_of_entries hphase rfl (.away (h.mono rfl ?_ ?_ h.callback))
      · rintro (hfalse | hfalse | hfalse) <;> cases hfalse
      · exact fun hstate => ⟨hstate, nofun⟩
  | assign hpc => exact follows_of_entries hphase rfl (h.assign hpc hg)
  | expiration hpc =>
      refine follows_of_entries hphase rfl (.away (h.mono rfl ?_ ?_ h.callback))
      · rintro (hfalse | hfalse | hfalse) <;> cases hfalse
      · exact fun hstate => ⟨hstate, nofun⟩
  | preAuthorize hpc => exact (hstay hpc rfl).elim
  | accepted hpc => exact (hstay hpc rfl).elim
  | completeClear hpc => exact (hsettling hpc (.inl trivial)).elim
  | completeJson hpc => exact (hsettling hpc (.inl trivial)).elim
  | settle hpc => exact (hsettling hpc (.inr (.inr rfl))).elim
  | completion resp hcallback =>
      by_cases happroved : resp.status.approved
      · rcases (hg.completion resp rfl).1 happroved with hawaited | hawaited
        · exact (h.curState hawaited.1).elim
        · exact (h.pc (.inl hawaited)).elim
      · refine follows_of_entries hphase ?_ (.away (h.mono rfl h.pc ?_ nofun))
        · exact List.filterMap_cons_none (entries_declined happroved)
        · exact fun hstate => ⟨hstate, (h.newState hstate).2⟩
  | callbackTrue _ hstate => exact (h.curState hstate).elim
  | callbackFalse _ _ =>
      refine follows_of_entries hphase rfl (.away (h.mono rfl h.pc ?_ nofun))
      exact fun hstate => ⟨hstate, (h.newState hstate).2⟩
  | callbackWrite hcallback => exact (h.callback hcallback).elim
  | _ => exact follows_of_entries hphase rfl (.away ⟨h.curState, h.pc, h.newState, h.callback⟩)

theorem asking_step (h : Asking s) (hlocated : Located s)
    (hphase : phase s.entries = some .closed) (hg : Attended s a) (hs : Transition s a s') :
    Follows s' := by
  have hpc := h.pc
  have hcur : s.curState = .trans := hlocated.at_pc hpc rfl
  cases hs with
  | preAuthorize _ =>
      refine follows_of_entry hphase rfl rfl (.opened ⟨⟨nofun, nofun⟩, ?_⟩)
      intro hahead
      refine h.status ?_
      rcases hahead with hcallback | ⟨hcallback, -⟩ | ⟨hstate, -⟩ | hfalse
      · exact .inl (ne_of_eq_of_ne hcallback nofun)
      · exact .inl (ne_of_eq_of_ne hcallback nofun)
      · exact .inr hstate
      · exact hfalse.elim
  | completion resp _ =>
      by_cases happroved : resp.status.approved
      · rcases (hg.completion resp rfl).1 happroved with hawaited | hawaited
        · exact (hawaited.2 hpc).elim
        · rw [hpc] at hawaited
          exact hawaited.elim
      · exact follows_of_entries hphase (List.filterMap_cons_none (entries_declined happroved))
          (.asking ⟨hpc, fun _ => happroved⟩)
  | callbackTrue hcallback _ =>
      refine follows_of_entries hphase rfl (.asking ⟨hpc, fun _ => h.status (.inl ?_)⟩)
      exact ne_of_eq_of_ne hcallback nofun
  | callbackFalse _ hstate => exact (hstate hcur).elim
  | callbackWrite hcallback =>
      refine follows_of_entries hphase rfl (.asking ⟨hpc, fun _ => h.status (.inl ?_)⟩)
      exact ne_of_eq_of_ne hcallback nofun
  | kioskStarts | kioskRefuses | completionLost | interrupt | tick =>
      exact follows_of_entries hphase rfl (.asking ⟨hpc, h.status⟩)
  | goes hpc' hgoes =>
      rw [← hpc', hpc] at hgoes
      cases hgoes
  | sets hpc' hsets =>
      rw [← hpc', hpc] at hsets
      cases hsets
  | shows _ _ hpc' hshows =>
      rw [← hpc', hpc] at hshows
      cases hshows
  | returns hpc' hreturns =>
      rw [← hpc', hpc] at hreturns
      cases hreturns with
      | initFailed _ hinit => rcases hinit with hinit | hinit | hinit <;> cases hinit
  | expiration hpc' => rcases hpc' with hpc' | hpc' <;> cases hpc.symm.trans hpc'
  | status _ _ hpc' => cases hpc.symm.trans hpc'
  | statusAgain _ _ hpc' => cases hpc.symm.trans hpc'
  | assign hpc' => cases hpc.symm.trans hpc'
  | accepted hpc' => cases hpc.symm.trans hpc'
  | completeClear hpc' => cases hpc.symm.trans hpc'
  | completeJson hpc' => cases hpc.symm.trans hpc'
  | settle hpc' => cases hpc.symm.trans hpc'
  | established _ hpc' _ => cases hpc.symm.trans hpc'
  | closed _ hpc' _ => cases hpc.symm.trans hpc'
  | writeable _ hpc' _ => cases hpc.symm.trans hpc'

/-! ### Steps after `PreAuthorize` was sent -/

/-- Steps that leave the states, the callback and the response alone. -/
theorem Opened.move (h : Opened s) (hcur : s'.curState = s.curState)
    (hnew : s'.newState = s.newState) (hcallback : s'.callback = s.callback)
    (hresp : s'.lastPaymentResponse = s.lastPaymentResponse)
    (hpc : s'.pc ≠ .showApproved ∧ s'.pc ≠ .settle)
    (huntested : s'.pc.untested → s.pc.untested)
    (hassign : s'.pc = .assign → s.newState ≠ s.curState ∨ s.pc = .assign) : Opened s' where
  pc := hpc
  status := by
    rw [hresp]
    intro hahead
    refine h.status ?_
    rw [Ahead, hcur, hnew, hcallback] at hahead
    rcases hahead with hwrite | htest | ⟨hstate, hstay | hpc'⟩ | hpc'
    · exact .inl hwrite
    · exact .inr (.inl htest)
    · exact .inr (.inr (.inl ⟨hstate, .inl hstay⟩))
    · refine .inr (.inr (.inl ⟨hstate, ?_⟩))
      rcases hassign hpc' with hne | hassign
      · exact .inl fun hcur' => hne (hstate.trans hcur'.symm)
      · exact .inr hassign
    · exact .inr (.inr (.inr (huntested hpc')))

theorem Opened.goes (h : Opened s) {pc pc' : MainPc} (hpc : s.pc = pc) (hgoes : Goes s pc pc') :
    Opened { s with pc := pc' } := by
  refine h.move rfl rfl rfl rfl ?_ ?_ ?_
  · cases hgoes with
    | approved happroved =>
        refine (h.status (.inr (.inr (.inr ?_))) happroved).elim
        rw [hpc]
        trivial
    | _ => exact ⟨nofun, nofun⟩
  · cases hgoes <;> exact False.elim
  · rintro rfl
    cases hgoes with
    | change hne => exact .inl hne

/-- A `new_state` other than `ST_TRANS_COMPLETE`. -/
theorem Opened.sets (h : Opened s) {pc pc' : MainPc} {state : DemoState}
    (hsets : Sets pc pc' state) : Opened { s with pc := pc', newState := state } where
  pc := by cases hsets <;> exact ⟨nofun, nofun⟩
  status := by
    rintro (hwrite | htest | ⟨hstate, -⟩ | huntested)
    · exact h.status (.inl hwrite)
    · exact h.status (.inr (.inl htest))
    · cases hsets <;> cases hstate
    · cases hsets <;> cases huntested

theorem Opened.assign (h : Opened s) (hpc : s.pc = .assign) (hg : Attended s .main) :
    Opened { s with pc := entry s.newState, curState := s.newState } where
  pc := by
    constructor <;> intro hentry
    · have hnew := settling_entry (.inr (.inl hentry))
      rw [hnew] at hentry
      cases hentry
    · have hnew := settling_entry (.inr (.inr hentry))
      rw [hnew] at hentry
      cases hentry
  status := by
    intro hahead happroved
    have hcomplete : s.newState ≠ .transComplete := fun hstate =>
      h.status (.inr (.inr (.inl ⟨hstate, .inr hpc⟩))) happroved
    rcases hahead with hwrite | ⟨htest, -⟩ | ⟨hstate, -⟩ | huntested
    · exact h.status (.inl hwrite) happroved
    · exact hcomplete (hg.assign rfl hpc (ne_of_eq_of_ne htest nofun) happroved).1
    · exact hcomplete hstate
    · exact hcomplete (settling_entry (.inl huntested))

theorem opened_step (h : Opened s) (hphase : phase s.entries = some .opened)
    (hg : Attended s a) (hs : Transition s a s') : Follows s' := by
  cases hs with
  | goes hpc hgoes => exact follows_of_entries hphase rfl (.opened (h.goes hpc hgoes))
  | sets hpc hsets => exact follows_of_entries hphase rfl (.opened (h.sets hsets))
  | shows line1 line2 hpc hshows =>
      refine follows_of_entries hphase rfl (.opened (h.move rfl rfl rfl rfl ?_ ?_ ?_))
      · cases hshows with
        | approved => exact (h.pc.1 hpc).elim
        | _ => exact ⟨nofun, nofun⟩
      · cases hshows <;> exact False.elim
      · cases hshows <;> nofun
  | returns hpc hreturns =>
      refine follows_of_entries hphase rfl (.opened (h.move rfl rfl rfl rfl ?_ ?_ ?_))
      · cases hreturns <;> exact ⟨nofun, nofun⟩
      · cases hreturns <;> exact False.elim
      · cases hreturns <;> nofun
  | assign hpc => exact follows_of_entries hphase rfl (.opened (h.assign hpc hg))
  | preAuthorize hpc =>
      refine follows_of_entry hphase rfl rfl (.opened ?_)
      exact h.move rfl rfl rfl rfl ⟨nofun, nofun⟩ False.elim nofun
  | completeClear hpc =>
      have huntested : s.pc.untested := by
        rw [hpc]
        trivial
      refine follows_of_entries hphase rfl (.opened ?_)
      exact h.move rfl rfl rfl rfl ⟨nofun, nofun⟩ (fun _ => huntested) nofun
  | completeJson hpc =>
      have huntested : s.pc.untested := by
        rw [hpc]
        trivial
      refine follows_of_entries hphase rfl (.opened ?_)
      exact h.move rfl rfl rfl rfl ⟨nofun, nofun⟩ (fun _ => huntested) nofun
  | settle hpc => exact (h.pc.2 hpc).elim
  | completion resp hcallback =>
      -- from here on the payment is owed, if it is approved
      by_cases happroved : resp.status.approved
      · refine follows_of_entry hphase (List.filterMap_cons_some (entries_approved happroved)) rfl
          (.owes ⟨happroved, rfl, ?_⟩)
        rcases (hg.completion resp rfl).1 happroved with ⟨hcur, hpc⟩ | hawaited
        · exact .inl ⟨hcur, hpc, .inl nofun⟩
        · exact .inr ⟨nofun, .inl hawaited⟩
      · refine follows_of_entries hphase (List.filterMap_cons_none (entries_declined happroved)) ?_
        exact .opened ⟨h.pc, fun _ => happroved⟩
  | callbackTrue hcallback hcur =>
      have hahead : s.Ahead := .inr (.inl ⟨hcallback, hcur⟩)
      exact follows_of_entries hphase rfl (.opened ⟨h.pc, fun _ => h.status hahead⟩)
  | callbackFalse hcallback hcur =>
      refine follows_of_entries hphase rfl (.opened ⟨h.pc, ?_⟩)
      rintro (hfalse | ⟨hfalse, -⟩ | hstate | huntested)
      · cases hfalse
      · cases hfalse
      · exact h.status (.inr (.inr (.inl hstate)))
      · exact h.status (.inr (.inr (.inr huntested)))
  | callbackWrite hcallback =>
      exact follows_of_entries hphase rfl (.opened ⟨h.pc, fun _ => h.status (.inl hcallback)⟩)
  | kioskStarts | kioskRefuses | completionLost | interrupt | tick | established | closed
  | writeable =>
      exact follows_of_entries hphase rfl (.opened ⟨h.pc, h.status⟩)
  | _ =>
      refine follows_of_entries hphase rfl (.opened ?_)
      exact h.move rfl rfl rfl rfl ⟨nofun, nofun⟩ False.elim nofun

/-! ### Steps while something is owed -/

theorem Owes.in_trans {ref : Bytes} (h : Owes s ref) (hpc : ¬s.pc.settling) :
    s.curState = .trans ∧ s.pc ≠ .preAuthorize ∧
      (s.callback ≠ .idle ∨ s.newState = .transComplete) :=
  h.place.resolve_right fun hplace => hpc hplace.2

/-- Steps outside of `ST_TRANS_COMPLETE` that leave the states, the callback and the response
alone. -/
theorem Owes.move {ref : Bytes} (h : Owes s ref) (hcur : s'.curState = s.curState)
    (hnew : s'.newState = s.newState) (hcallback : s'.callback = s.callback)
    (hresp : s'.lastPaymentResponse = s.lastPaymentResponse) (hpc : ¬s.pc.settling)
    (hpc' : s'.pc ≠ .preAuthorize) : Owes s' ref where
  status := by
    rw [hresp]
    exact h.status
  reference := by
    rw [hresp]
    exact h.reference
  place := by
    obtain ⟨htrans, -, hplace⟩ := h.in_trans hpc
    rw [hcur, hnew, hcallback]
    exact .inl ⟨htrans, hpc', hplace⟩

/-- Steps inside of it. -/
theorem Owes.proceed {ref : Bytes} (h : Owes s ref) (hlocated : Located s)
    (hhome : home s.pc = some .transComplete) (hcallback : s'.callback = s.callback)
    (hresp : s'.lastPaymentResponse = s.lastPaymentResponse) (hpc : s'.pc.settling) :
    Owes s' ref where
  status := by
    rw [hresp]
    exact h.status
  reference := by
    rw [hresp]
    exact h.reference
  place := by
    rw [hcallback]
    rcases h.place with ⟨htrans, -⟩ | ⟨hwrite, -⟩
    · have hcur := hlocated _ hhome
      rw [htrans] at hcur
      cases hcur
    · exact .inr ⟨hwrite, hpc⟩

theorem Owes.assign {ref : Bytes} (h : Owes s ref) (hpc : s.pc = .assign)
    (hg : Attended s .main) :
    Owes { s with pc := entry s.newState, curState := s.newState } ref where
  status := h.status
  reference := h.reference
  place := by
    have hsettling : ¬s.pc.settling := by
      rw [hpc]
      rintro (hfalse | hfalse | hfalse) <;> cases hfalse
    obtain ⟨-, -, hplace⟩ := h.in_trans hsettling
    have hnew : s.newState = .transComplete ∧ s.callback ≠ .write := by
      by_cases hidle : s.callback = .idle
      · exact ⟨hplace.resolve_left fun hbusy => hbusy hidle, ne_of_eq_of_ne hidle nofun⟩
      · obtain ⟨hnew, htest⟩ := hg.assign rfl hpc hidle h.status
        exact ⟨hnew, ne_of_eq_of_ne htest nofun⟩
    rw [hnew.1]
    exact .inr ⟨hnew.2, .inl trivial⟩

theorem Owes.goes {ref : Bytes} (h : Owes s ref) (hlocated : Located s) {pc pc' : MainPc}
    (hpc : s.pc = pc) (hgoes : Goes s pc pc') : Owes { s with pc := pc' } ref := by
  cases hgoes with
  | approved _ => exact h.proceed hlocated (by rw [hpc]; rfl) rfl rfl (.inr (.inl rfl))
  | notApproved hstatus => exact (hstatus h.status).elim
  | _ =>
      refine h.move rfl rfl rfl rfl ?_ nofun
      rw [hpc]
      rintro (hfalse | hfalse | hfalse) <;> cases hfalse

theorem located_settling (hlocated : Located s) (hpc : s.pc.settling) :
    s.curState = .transComplete := by
  refine hlocated _ ?_
  generalize s.pc = pc at hpc ⊢
  rcases hpc with huntested | rfl | rfl
  · cases pc <;> first | rfl | exact huntested.elim
  · rfl
  · rfl

/-- What is owed keeps `main` in two of its states. -/
theorem Owes.home {ref : Bytes} (h : Owes s ref) (hlocated : Located s) {pc : MainPc}
    (hpc : s.pc = pc) (hsettling : ¬pc.settling) : ∀ state, Demo.home pc = some state →
      state = .trans := by
  intro state hhome
  rw [← hpc] at hsettling
  rw [← hlocated.at_pc hpc hhome]
  exact (h.in_trans hsettling).1

theorem Owes.settled {ref : Bytes} (h : Owes s ref) (hlocated : Located s) (hpc : s.pc = .settle) :
    Away { s with pc := .completeDone, confirm := !s.confirm } where
  curState := by
    change s.curState ≠ .trans
    rw [hlocated.at_pc hpc rfl]
    nofun
  pc := by
    rintro (hfalse | hfalse | hfalse) <;> cases hfalse
  newState := fun _ => ⟨hlocated.at_pc hpc rfl, nofun⟩
  callback := by
    rcases h.place with ⟨htrans, -⟩ | ⟨hwrite, -⟩
    · cases htrans.symm.trans (hlocated.at_pc hpc rfl)
    · exact hwrite

theorem entries_settle (s : Demo) :
    DemoEvent.entry (.sent (if s.confirm then
        .confirmTransaction 450 0 42 s.lastPaymentResponse.reference
      else .voidTransaction s.lastPaymentResponse.reference)) =
      some (.settled s.lastPaymentResponse.reference.bytes) := by
  split_ifs <;> rfl

theorem Owes.completed {ref : Bytes} (h : Owes s ref) {resp : PaymentResponse}
    (happroved : resp.status.approved) (href : resp.reference.bytes = ref)
    (history : List DemoEvent) :
    Owes { s with
      lastPaymentResponse := resp
      callback := .test
      running := s.running - 1
      history := history } ref where
  status := happroved
  reference := href
  place := by
    rcases h.place with ⟨htrans, hpc, -⟩ | ⟨-, hpc⟩
    · exact .inl ⟨htrans, hpc, .inl nofun⟩
    · exact .inr ⟨nofun, hpc⟩

theorem owes_step {ref : Bytes} (h : Owes s ref) (hlocated : Located s)
    (hphase : phase s.entries = some (.owed ref)) (hg : Attended s a) (hs : Transition s a s') :
    Follows s' := by
  have hpc_away : ∀ {pc}, s.pc = pc → ¬pc.settling → ¬s.pc.settling := fun hpc hne => hpc ▸ hne
  have hkept : s.owed ≠ none := by
    intro hnone
    have hmem := owed_of_phase hphase
    rw [hnone] at hmem
    cases hmem
  have hnot : ∀ {pc}, pc = .lostInit ∨ pc = .startFailed → a = .main → s.pc ≠ pc := by
    rintro pc hpc' ha rfl
    exact hkept (hg.keep ha hpc')
  cases hs with
  | goes hpc hgoes => exact follows_of_entries hphase rfl (.owes (h.goes hlocated hpc hgoes))
  | sets hpc hsets =>
      have hhome := h.home hlocated hpc
      cases hsets with
      -- these two would leave the state with a payment to settle, and the guard excludes them
      | lostInit => exact (hnot (.inl rfl) rfl hpc).elim
      | startFailed => exact (hnot (.inr rfl) rfl hpc).elim
      | initIdle => cases hhome (by decide) _ rfl
      | completeDone => cases hhome (by decide) _ rfl
      | setTrans => cases hhome (by decide) _ rfl
      | setIdle => cases hhome (by decide) _ rfl
  | shows line1 line2 hpc hshows =>
      have hhome := h.home hlocated hpc
      refine follows_of_entries hphase rfl (.owes ?_)
      cases hshows with
      | welcome => cases hhome (by decide) _ rfl
      | failed => exact h.move rfl rfl rfl rfl (hpc_away hpc (by decide)) nofun
      | approved => exact h.proceed hlocated (by rw [hpc]; rfl) rfl rfl (.inr (.inr rfl))
      | status => cases hhome (by decide) _ rfl
  | returns hpc hreturns =>
      have hhome := h.home hlocated hpc
      cases hreturns with
      | kioskId => cases hhome (by decide) _ rfl
      | kioskVersion => cases hhome (by decide) _ rfl
      | readerVersion => cases hhome (by decide) _ rfl
      | initFailed _ hinit =>
          rcases hinit with rfl | rfl | rfl
          · cases hhome (by decide) _ rfl
          · cases hhome (by decide) _ rfl
          · cases hhome (by decide) _ rfl
      | notStarted _ =>
          refine follows_of_entries hphase rfl (.owes (h.move rfl rfl rfl rfl ?_ nofun))
          exact hpc_away hpc (by rintro (hfalse | hfalse | hfalse) <;> cases hfalse)
  | status ret status hpc =>
      refine follows_of_entries hphase rfl (.owes (h.move rfl rfl rfl rfl ?_ nofun))
      exact hpc_away hpc (by decide)
  | statusAgain ret status hpc =>
      refine follows_of_entries hphase rfl (.owes (h.move rfl rfl rfl rfl ?_ nofun))
      exact hpc_away hpc (by decide)
  | assign hpc => exact follows_of_entries hphase rfl (.owes (h.assign hpc hg))
  | expiration hpc =>
      rcases hpc with hpc | hpc
      · cases h.home hlocated hpc (by decide) _ rfl
      · cases h.home hlocated hpc (by decide) _ rfl
  | preAuthorize hpc => exact ((h.in_trans (hpc_away hpc (by decide))).2.1 hpc).elim
  | accepted hpc =>
      refine follows_of_entries hphase rfl (.owes (h.move rfl rfl rfl rfl ?_ nofun))
      exact hpc_away hpc (by decide)
  | completeClear hpc =>
      refine follows_of_entries hphase rfl (.owes ?_)
      exact h.proceed hlocated (by rw [hpc]; rfl) rfl rfl (.inl trivial)
  | completeJson hpc =>
      refine follows_of_entries hphase rfl (.owes ?_)
      exact h.proceed hlocated (by rw [hpc]; rfl) rfl rfl (.inl trivial)
  | settle hpc =>
      -- the one step that settles, with the reference of the response that is owed
      have hsettled := h.settled hlocated hpc
      refine follows_of_entry hphase (List.filterMap_cons_some (entries_settle s)) ?_
        (.away ⟨hsettled.curState, hsettled.pc, hsettled.newState, hsettled.callback⟩)
      exact if_pos h.reference
  | completion resp hcallback =>
      obtain ⟨happroved, href⟩ := (hg.completion resp rfl).2 ref (owed_of_phase hphase)
      refine follows_of_entry hphase (List.filterMap_cons_some (entries_approved happroved)) ?_
        (.owes (h.completed happroved href _))
      exact if_pos href
  | callbackTrue hcallback hcur =>
      refine follows_of_entries hphase rfl (.owes ⟨h.status, h.reference, ?_⟩)
      rcases h.place with ⟨htrans, hpc, -⟩ | ⟨-, hpc⟩
      · exact .inl ⟨htrans, hpc, .inl nofun⟩
      · cases hcur.symm.trans (located_settling hlocated hpc)
  | callbackFalse hcallback hcur =>
      refine follows_of_entries hphase rfl (.owes ⟨h.status, h.reference, ?_⟩)
      rcases h.place with ⟨htrans, -⟩ | ⟨-, hpc⟩
      · exact (hcur htrans).elim
      · exact .inr ⟨nofun, hpc⟩
  | callbackWrite hcallback =>
      refine follows_of_entries hphase rfl (.owes ⟨h.status, h.reference, ?_⟩)
      rcases h.place with ⟨htrans, hpc, -⟩ | ⟨hwrite, -⟩
      · exact .inl ⟨htrans, hpc, .inr rfl⟩
      · exact (hwrite hcallback).elim
  | kioskStarts | kioskRefuses | completionLost | interrupt | tick | established | closed
  | writeable =>
      exact follows_of_entries hphase rfl (.owes ⟨h.status, h.reference, h.place⟩)

/-! ### Runs -/

theorem follows_step (h : Follows s) (hlocated : Located s) (hg : Attended s a)
    (hs : Transition s a s') : Follows s' := by
  obtain ⟨p, hphase, hbooks⟩ := h
  cases hbooks with
  | away h => exact away_step h hlocated hphase hg hs
  | asking h => exact asking_step h hlocated hphase hg hs
  | opened h => exact opened_step h hphase hg hs
  | owes h => exact owes_step h hlocated hphase hg hs

theorem follows_start (h : Start s) : Follows s := by
  refine ⟨.closed, by rw [entries, h.history]; rfl, .away ⟨?_, ?_, ?_, ?_⟩⟩
  · rw [h.curState]
    nofun
  · rw [h.pc]
    decide
  · rw [h.newState]
    nofun
  · rw [h.callback]
    nofun

/-- **Settlement.** -/
theorem entries_settles (h : machine.Reach Attended s) : Settles s.entries := by
  have hboth : Located s ∧ Follows s := by
    apply h.invariant (I := fun s => Located s ∧ Follows s)
    · exact fun s hs => ⟨located_start hs, follows_start hs⟩
    · rintro s a s' ⟨hlocated, hfollows⟩ hg hstep
      have htransition := transition_of_step hstep
      exact ⟨located_step hlocated htransition, follows_step hfollows hlocated hg htransition⟩
  obtain ⟨p, hphase, -⟩ := hboth.2
  exact settles_of_phase hphase

def approvedResponse : PaymentResponse :=
  { PaymentResponse.zero with
    status := .ok
    transactionReference := (CharArray.zero 128).write (ascii "R1") }

def settledRun : List Action :=
  requestRun ++ [.kioskStarts, .result .ok, .completion approvedResponse, .callback, .callback] ++
    List.replicate 4 .main ++ iterations [8]

theorem settledRun_settles :
    ∃ s, machine.exec Attended boot settledRun = some s ∧
      s.entries = [.settled (ascii "R1"), .due (ascii "R1"), .opened] ∧
      Settles s.entries := by
  have hexec : (machine.exec Attended boot settledRun).map entries =
      some [.settled (ascii "R1"), .due (ascii "R1"), .opened] := by decide +kernel
  obtain ⟨s, hs, hentries⟩ := Option.map_eq_some_iff.mp hexec
  exact ⟨s, hs, hentries, entries_settles ⟨boot, boot_start, .of_exec hs⟩⟩

/-- `PreAuthorize` fails although the kiosk has started the transaction, and the completion comes
while the failure is shown. -/
def forgottenRun : List Action :=
  requestRun ++ [.kioskStarts, .result .commError] ++ List.replicate 6 .main ++ iterations [5] ++
    [.completion approvedResponse, .callback] ++ List.replicate 6 .tick ++ List.replicate 4 .main ++
    iterations [10, 4]

/-- The next `PreAuthorize` is sent, and the approved payment was not settled. -/
theorem forgottenRun_settles :
    ∃ s, machine.Reachable s ∧
      s.entries = [.opened, .due (ascii "R1"), .opened] ∧ ¬Settles s.entries := by
  have hexec : (machine.exec (fun _ _ => True) boot forgottenRun).map entries =
      some [.opened, .due (ascii "R1"), .opened] := by decide +kernel
  obtain ⟨s, hs, hentries⟩ := Option.map_eq_some_iff.mp hexec
  refine ⟨s, ⟨boot, boot_start, .of_exec hs⟩, hentries, ?_⟩
  rw [hentries]
  intro h
  have hcount := h.before [] [] (ascii "R1") [.opened] rfl List.mem_cons_self (by simp)
  cases hcount

end Demo

end OtiKiosk
