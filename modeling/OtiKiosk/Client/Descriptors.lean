import OtiKiosk.Client.Bookkeeping

/-!
Descriptors that are used after they were closed. The loop reads `sockfd` for
`_receive_raw`, and `send_to_kiosk` for its write, without the mutex; the descriptor
may be closed before it is used, and its number handed out again. When the write has
failed, `send_to_kiosk` takes the mutex and closes what `sockfd` says then, which may
be a connection that was opened since. Runs in which neither happens are told from
the others by their steps.
-/

namespace OtiKiosk

def LoopPc.uses : LoopPc → Option Ref
  | .poll r | .read r => some r
  | _ => none

def SenderPc.uses : SenderPc → Option Ref
  | .write r => some r
  | _ => none

/-- The write after whose failure `sockfd` is about to be read. -/
def SenderPc.failed : SenderPc → Option Ref
  | .readClose failed => some failed
  | _ => none

theorem SenderPc.eq_of_failed {pc : SenderPc} {failed : Ref} (h : pc.failed = some failed) :
    pc = .readClose failed := by
  cases pc with
  | readClose r =>
      obtain rfl : r = failed := Option.some.inj h
      rfl
  | _ => cases h

namespace Network

variable {Thread : Type}

def Uses (s : Network Thread) (side : Side) (r : Ref) : Prop :=
  (s.channel side).pc.uses = some r ∨ side = .commands ∧ ∃ who, (s.senders who).uses = some r

/-- The number refers to the socket that it stood for when it was read. -/
def Current (s : Network Thread) (r : Ref) : Prop :=
  ∀ n, r.fd = some n → ∃ d, s.table n = some d ∧ r.socket = some d.socket

structure Sound (s : Network Thread) : Prop where
  uses : ∀ side r, s.Uses side r → s.Current r
  /-- What is closed after a failed write is the socket on which it failed. -/
  closes : ∀ who failed r, s.senders who = .close failed r →
    ∀ n d, r.fd = some n → s.table n = some d → failed.socket = some d.socket

def InUse (s : Network Thread) (fd : Option ℕ) : Prop :=
  fd ≠ none ∧ ((∃ side, (s.channel side).pc.uses.map (·.fd) = some fd) ∨
    ∃ who, (s.senders who).uses.map (·.fd) = some fd)

/-- The loop closes only what nobody uses, and does not read the number of what is closed. -/
def CarefulLoop (s : Network Thread) (side : Side) : Prop :=
  (∀ r ∈ (s.channel side).pc.closes, ¬s.InUse r.fd) ∧
    ((s.channel side).pc = .readInner → s.Stale side → (s.channel side).sockfd = none)

/-- Nor does a sender, and what it reads for the close is what its write failed on. -/
def CarefulSender (s : Network Thread) (who : Option Thread) : Prop :=
  (∀ r ∈ (s.senders who).closes, ¬s.InUse r.fd) ∧
    (s.senders who = .readWrite → s.Stale .commands → (s.channel .commands).sockfd = none) ∧
    ∀ failed ∈ (s.senders who).failed,
      (s.channel .commands).sockfd = none ∨ (s.channel .commands).socket = failed.socket

def Careful (s : Network Thread) (a : NetworkAction Thread) : Prop :=
  (∀ side, a.side = some side → s.CarefulLoop side) ∧
    ∀ who, a.who = some who → s.CarefulSender who

/-! ### The table -/

def Closing (s : Network Thread) (a : NetworkAction Thread) (fd : Option ℕ) : Prop :=
  (∃ side r, a.side = some side ∧ (s.channel side).pc.closes = some r ∧ r.fd = fd) ∨
    ∃ who r, a.who = some who ∧ (s.senders who).closes = some r ∧ r.fd = fd

inductive TableMove (s : Network Thread) (a : NetworkAction Thread) : Slots Descriptor → ℕ → Prop
  | same : TableMove s a s.table s.sockets
  | opened (owner : Option Side) {n : ℕ} : s.table n = none →
      TableMove s a (s.table.take n ⟨s.sockets, owner, false⟩) (s.sockets + 1)
  | connected (n : ℕ) : TableMove s a (s.table.alter n ({ · with connected := true })) s.sockets
  | closed {fd : Option ℕ} : s.Closing a fd → TableMove s a (s.table.free fd) s.sockets
  | closedOther {n : ℕ} {d : Descriptor} : s.table n = some d → d.owner = none →
      TableMove s a (s.table.free (some n)) s.sockets

section

variable {s s' : Network Thread} {a : NetworkAction Thread} {side : Side} {r : Ref} {n : ℕ}
  {d : Descriptor} {t : Slots Descriptor} {m : ℕ}

/-- Where an entry comes from. -/
theorem TableMove.entry (h : TableMove s a t m) (hd : t n = some d) :
    (∃ d', s.table n = some d' ∧ d'.socket = d.socket ∧ d'.owner = d.owner) ∨
      s.table n = none ∧ d.socket = s.sockets ∧ s.sockets < m := by
  cases h with
  | same => exact .inl ⟨d, hd, rfl, rfl⟩
  | @opened owner k hfree =>
      by_cases hn : n = k
      · subst hn
        rw [Slots.take_self] at hd
        obtain rfl := Option.some.inj hd
        exact .inr ⟨hfree, rfl, Nat.lt_succ_self _⟩
      · rw [Slots.take_ne hn] at hd
        exact .inl ⟨d, hd, rfl, rfl⟩
  | connected k =>
      by_cases hn : n = k
      · subst hn
        rw [Slots.alter_self, Option.map_eq_some_iff] at hd
        obtain ⟨d', hd', rfl⟩ := hd
        exact .inl ⟨d', hd', rfl, rfl⟩
      · rw [Slots.alter_ne hn] at hd
        exact .inl ⟨d, hd, rfl, rfl⟩
  | closed _ | closedOther _ _ => exact .inl ⟨d, (Slots.of_free hd).1, rfl, rfl⟩

/-- An entry stays, unless it is closed. -/
theorem TableMove.stays (h : TableMove s a t m) (hd : s.table n = some d) (howner : d.owner ≠ none)
    (hclosing : ¬s.Closing a (some n)) : ∃ d', t n = some d' ∧ d'.socket = d.socket := by
  cases h with
  | same => exact ⟨d, hd, rfl⟩
  | @opened owner k hfree =>
      have hn : n ≠ k := by
        rintro rfl
        rw [hfree] at hd
        cases hd
      exact ⟨d, by rw [Slots.take_ne hn, hd], rfl⟩
  | connected k =>
      by_cases hn : n = k
      · subst hn
        exact ⟨{ d with connected := true }, by rw [Slots.alter_self, hd]; rfl, rfl⟩
      · exact ⟨d, by rw [Slots.alter_ne hn, hd], rfl⟩
  | @closed fd hfd =>
      have hne : fd ≠ some n := by
        rintro rfl
        exact hclosing hfd
      exact ⟨d, Slots.free_of_ne hd hne, rfl⟩
  | @closedOther k e he hnone =>
      refine ⟨d, Slots.free_of_ne hd ?_, rfl⟩
      intro heq
      obtain rfl := Option.some.inj heq
      obtain rfl : d = e := Option.some.inj (hd.symm.trans he)
      exact howner hnone

theorem TableMove.sockets_le (h : TableMove s a t m) : s.sockets ≤ m := by
  cases h with
  | opened owner hfree => exact Nat.le_succ _
  | _ => exact le_rfl

variable [DecidableEq Thread]

theorem tableMove_of_step (h : Transition s a s') : TableMove s a s'.table s'.sockets := by
  cases h with
  | @close side r ha hpc => exact .closed (.inl ⟨side, r, ha, by rw [hpc]; rfl, rfl⟩)
  | @closeFailed side r ha hpc => exact .closed (.inl ⟨side, r, ha, by rw [hpc]; rfl, rfl⟩)
  | @senderClose who failed r ha hpc => exact .closed (.inr ⟨who, r, ha, by rw [hpc]; rfl, rfl⟩)
  | @socket side n ha hpc hfree => exact .opened (some side) hfree
  | openOther _ _ hfree => exact .opened none hfree
  | @connect side r n ha hpc hfd => exact .connected n
  | closeOther _ _ hd howner => exact .closedOther hd howner
  | _ => exact .same

/-! ### What a step reads -/

def Reading (s : Network Thread) (a : NetworkAction Thread) (side : Side) : Prop :=
  a.side = some side ∧ (s.channel side).pc = .readInner ∨
    side = .commands ∧ ∃ who, a.who = some who ∧ s.senders who = .readWrite

omit [DecidableEq Thread] in
theorem Move.uses {c : Channel Thread} {pc pc' : LoopPc} (h : Move s c pc pc')
    (hr : pc'.uses = some r) : pc.uses = some r ∨ pc = .readInner ∧ r = c.ref := by
  cases h with
  | readInner => exact .inr ⟨rfl, (Option.some.inj hr).symm⟩
  | pollReady r' _ => exact .inl hr
  | unconnected _ =>
      rw [Channel.openPc] at hr
      split at hr <;> cases hr
  | _ => cases hr

omit [DecidableEq Thread] in
theorem SenderMove.uses {c : Channel Thread} {pc pc' : SenderPc} (h : SenderMove s c pc pc')
    (hr : pc'.uses = some r) : pc = .readWrite ∧ r = c.ref := by
  cases h with
  | readWrite => exact ⟨rfl, (Option.some.inj hr).symm⟩
  | _ => cases hr

omit [DecidableEq Thread] in
/-- The loop has moved, and does not use anything now. -/
theorem uses_of_loop {side' : Side}
    (hchannel : ∀ side'', side'' ≠ side' → s'.channel side'' = s.channel side'')
    (hsenders : s'.senders = s.senders) (hself : (s'.channel side').pc.uses = none)
    (h : s'.Uses side r) : s.Uses side r := by
  rcases h with hpc | hwho
  · by_cases hside : side = side'
    · subst hside
      rw [hself] at hpc
      cases hpc
    · rw [hchannel side hside] at hpc
      exact .inl hpc
  · rw [hsenders] at hwho
    exact .inr hwho

/-- A sender has moved, and does not use anything now. -/
theorem uses_of_sender {who : Option Thread} {pc : SenderPc}
    (h : (s'.setSender who pc).Uses side r)
    (hchannel : ∀ side, (s'.channel side).pc = (s.channel side).pc)
    (hsenders : s'.senders = s.senders) (hself : pc.uses = none) : s.Uses side r := by
  rcases h with hpc | ⟨hside, who', hwho⟩
  · exact .inl ((congrArg LoopPc.uses (hchannel side)).symm.trans hpc)
  · by_cases hne : who' = who
    · subst hne
      rw [setSender_self, hself] at hwho
      cases hwho
    · rw [setSender_ne s' hne, hsenders] at hwho
      exact .inr ⟨hside, who', hwho⟩

omit [DecidableEq Thread] in
theorem openPc_uses (c : Channel Thread) : c.openPc.uses = none := by
  rw [Channel.openPc]
  split <;> rfl

omit [DecidableEq Thread] in
/-- What is the same in the new channel is the same in all of them. -/
theorem setChannel_same {α : Type} (f : Channel Thread → α) {c : Channel Thread}
    (hc : f c = f (s.channel side)) (side' : Side) :
    f ((s.setChannel side c).channel side') = f (s.channel side') := by
  by_cases hside : side' = side
  · subst hside
    rw [setChannel_self, hc]
  · rw [setChannel_ne s hside]

/-- What is used was used before, or was read in this step. -/
theorem uses_of_step (h : Transition s a s') (hr : s'.Uses side r) :
    s.Uses side r ∨ r = (s.channel side).ref ∧ s.Reading a side := by
  cases h with
  | @goto side' pc ha hmove =>
      rcases hr with hpc | hwho
      · by_cases hside : side = side'
        · subst hside
          rw [goto_self] at hpc
          rcases hmove.uses hpc with hpc | ⟨hpc, hr⟩
          · exact .inl (.inl hpc)
          · exact .inr ⟨hr, .inl ⟨ha, hpc⟩⟩
        · rw [Network.goto, setChannel_ne s hside] at hpc
          exact .inl (.inl hpc)
      · exact .inl (.inr hwho)
  | @senderGoto who pc ha hmove =>
      rcases hr with hpc | ⟨hside, who', hwho⟩
      · exact .inl (.inl hpc)
      · by_cases hne : who' = who
        · subst hne hside
          rw [setSender_self] at hwho
          obtain ⟨hpc, hr⟩ := hmove.uses hwho
          exact .inr ⟨hr, .inr ⟨rfl, who', ha, hpc⟩⟩
        · rw [setSender_ne s hne] at hwho
          exact .inl (.inr ⟨hside, who', hwho⟩)
  | lock _ _ _ | unlockRetry _ _ | unlockConnected _ _ =>
      refine .inl (uses_of_loop (fun _ hne => setChannel_ne s hne _) rfl ?_ hr)
      rw [setChannel_self]
      rfl
  | socket _ _ _ | close _ _ | closeFailed _ _ | connect _ _ _ =>
      refine .inl (uses_of_loop (fun _ hne => setChannel_ne _ hne _) rfl ?_ hr)
      rw [setChannel_self]
      rfl
  | clear _ _ =>
      refine .inl (uses_of_loop (fun _ hne => cleared_ne s hne _) rfl ?_ hr)
      rw [goto_self]
      exact openPc_uses _
  | noSocket _ _ | clearFailed _ _ =>
      refine .inl (uses_of_loop (fun _ hne => cleared_ne s hne _) rfl ?_ hr)
      rw [goto_self]
      rfl
  | senderLock _ _ _ | senderClear _ _ | senderUnlock _ _ =>
      refine .inl (uses_of_sender hr (fun side => ?_) rfl rfl)
      apply setChannel_same (·.pc)
      rfl
  | senderClose _ _ =>
      exact .inl (uses_of_sender hr (fun _ => rfl) rfl rfl)
  | openOther _ _ _ | closeOther _ _ _ _ => exact .inl hr

/-- A close after a failed write was begun before, or in this step. -/
theorem closes_of_step (h : Transition s a s') {who : Option Thread} {failed : Ref}
    (hwho : s'.senders who = .close failed r) : s.senders who = .close failed r ∨
      a.who = some who ∧ s.senders who = .readClose failed ∧ r = (s.channel .commands).ref := by
  have hmoved : ∀ {who' : Option Thread} {pc : SenderPc}, pc.closes = none →
      Function.update s.senders who' pc who = .close failed r → s.senders who = .close failed r := by
    intro who' pc hpc heq
    by_cases hne : who = who'
    · subst hne
      rw [Function.update_self] at heq
      rw [heq] at hpc
      cases hpc
    · rw [Function.update_of_ne hne] at heq
      exact heq
  cases h with
  | @senderGoto who' pc ha hmove =>
      by_cases hne : who = who'
      · subst hne
        rw [setSender_self] at hwho
        subst hwho
        generalize hpc : s.senders who = pc at hmove
        cases hmove
        exact .inr ⟨ha, rfl, rfl⟩
      · rw [setSender_ne s hne] at hwho
        exact .inl hwho
  | senderLock _ _ _ | senderClose _ _ | senderClear _ _ | senderUnlock _ _ =>
      exact .inl (hmoved rfl hwho)
  | _ => exact .inl hwho

/-! ### Sockets of the client -/

def Own (s : Network Thread) (side : Side) (o : Option ℕ) : Prop :=
  ∀ k, o = some k → k < s.sockets ∧ ∀ n d, s.table n = some d → d.socket = k → d.Of side

omit [DecidableEq Thread] in
theorem own_none (s : Network Thread) (side : Side) : s.Own side none := by
  intro k hk
  cases hk

omit [DecidableEq Thread] in
theorem Own.step {o : Option ℕ} (h : s.Own side o) (hmove : TableMove s a s'.table s'.sockets) :
    s'.Own side o := by
  intro k hk
  obtain ⟨hlt, hof⟩ := h k hk
  refine ⟨hlt.trans_le hmove.sockets_le, fun n d hd hsocket => ?_⟩
  rcases hmove.entry hd with ⟨d', hd', hsame, howner⟩ | ⟨-, hnew, -⟩
  · have hof' : d'.Of side := hof n d' hd' (hsame.trans hsocket)
    exact howner.symm.trans hof'
  · omega

structure Known (s : Network Thread) (side : Side) : Prop where
  socket : s.Own side (s.channel side).socket
  uses : ∀ r, s.Uses side r → s.Own side r.socket

/-- What `sockfd` stands for, after a step. -/
theorem own_of_step (hnumbered : Numbered s) (hknown : s.Own side (s.channel side).socket)
    (h : Transition s a s') : s'.Own side (s'.channel side).socket := by
  have hmove := tableMove_of_step h
  have hsame : (s'.channel side).socket = (s.channel side).socket →
      s'.Own side (s'.channel side).socket := by
    intro heq
    rw [heq]
    exact hknown.step hmove
  cases h with
  | goto _ _ | lock _ _ _ | unlockRetry _ _ | unlockConnected _ _ | senderLock _ _ _
  | senderUnlock _ _ | close _ _ | closeFailed _ _ | connect _ _ _ =>
      refine hsame ?_
      apply setChannel_same (·.socket)
      rfl
  | senderGoto _ _ | senderClose _ _ | openOther _ _ _ | closeOther _ _ _ _ => exact hsame rfl
  | @clear side' _ _ | @noSocket side' _ _ | @clearFailed side' _ _ =>
      by_cases hside : side = side'
      · subst hside
        rw [goto_self, clearFd_self]
        exact own_none _ side
      · refine hsame ?_
        rw [cleared_ne s hside]
  | senderClear _ _ =>
      change Own _ side ((s.clearFd .commands).channel side).socket
      by_cases hside : side = .commands
      · subst hside
        rw [clearFd_self]
        exact own_none _ .commands
      · refine hsame ?_
        exact congrArg Channel.socket (setChannel_ne s hside _)
  | @socket side' n _ _ _ =>
      by_cases hside : side = side'
      · subst hside
        rw [setChannel_self]
        intro k hk
        obtain rfl : s.sockets = k := Option.some.inj hk
        refine ⟨Nat.lt_succ_self _, fun m d hd hsocket => ?_⟩
        -- the other numbers are smaller
        change s.table.take n ⟨s.sockets, some side, false⟩ m = some d at hd
        by_cases hm : m = n
        · subst hm
          rw [Slots.take_self] at hd
          obtain rfl := Option.some.inj hd
          rfl
        · rw [Slots.take_ne hm] at hd
          have hlt := hnumbered.fresh m d hd
          omega
      · refine hsame ?_
        exact congrArg Channel.socket (setChannel_ne _ hside _)

theorem known_step (hnumbered : Numbered s) (hknown : Known s side) (h : Transition s a s') :
    Known s' side where
  socket := own_of_step hnumbered hknown.socket h
  uses := by
    intro r hr
    have hmove := tableMove_of_step h
    rcases uses_of_step h hr with hold | ⟨rfl, -⟩
    · exact (hknown.uses r hold).step hmove
    · exact hknown.socket.step hmove

theorem known (h : machine.Reachable s) (side : Side) : Known s side := by
  have hboth : Numbered s ∧ ∀ side, Known s side := by
    apply h.invariant (I := fun s => Numbered s ∧ ∀ side, Known s side)
    · rintro s ⟨isLocal, addrTooLong, rfl⟩
      refine ⟨numbered ⟨_, ⟨isLocal, addrTooLong, rfl⟩, .refl⟩, fun side => ⟨own_none _ side, ?_⟩⟩
      rintro r (hr | ⟨-, who, hwho⟩)
      · cases hr
      · cases hwho
    · rintro s a s' ⟨hnumbered, hknown⟩ - hstep
      have hs := transition_of_step hstep
      exact ⟨numbered_step hnumbered hs, fun side => known_step hnumbered (hknown side) hs⟩
  exact hboth.2 side

/-! ### Careful steps -/

omit [DecidableEq Thread] in
theorem inUse_of_uses (h : s.Uses side r) (hfd : r.fd = some n) : s.InUse (some n) := by
  refine ⟨Option.some_ne_none n, ?_⟩
  rcases h with hpc | ⟨-, who, hwho⟩
  · refine .inl ⟨side, ?_⟩
    rw [hpc, Option.map_some, hfd]
  · refine .inr ⟨who, ?_⟩
    rw [hwho, Option.map_some, hfd]

omit [DecidableEq Thread] in
theorem uses_of_inUse {fd : Option ℕ} (h : s.InUse fd) : ∃ side r, s.Uses side r ∧ r.fd = fd := by
  rcases h with ⟨-, ⟨side, hpc⟩ | ⟨who, hwho⟩⟩
  · obtain ⟨r, hr, hfd⟩ := Option.map_eq_some_iff.mp hpc
    exact ⟨side, r, .inl hr, hfd⟩
  · obtain ⟨r, hr, hfd⟩ := Option.map_eq_some_iff.mp hwho
    exact ⟨.commands, r, .inr ⟨rfl, who, hr⟩, hfd⟩

omit [DecidableEq Thread] in
theorem Careful.not_closing (h : s.Careful a) (hr : s.Uses side r) (hfd : r.fd = some n) :
    ¬s.Closing a (some n) := by
  have huse := inUse_of_uses hr hfd
  rintro (⟨side', r', ha, hcloses, hfd'⟩ | ⟨who, r', ha, hcloses, hfd'⟩)
  · refine (h.1 side' ha).1 r' hcloses ?_
    rw [hfd']
    exact huse
  · refine (h.2 who ha).1 r' hcloses ?_
    rw [hfd']
    exact huse

omit [DecidableEq Thread] in
theorem who_of_side (h : a.side = some side) : a.who = none := by
  cases a <;> first | rfl | cases h

omit [DecidableEq Thread] in
/-- A step that reads does not close. -/
theorem Reading.not_closing (h : s.Reading a side) {fd : Option ℕ} : ¬s.Closing a fd := by
  rintro (⟨side', r', ha, hcloses, -⟩ | ⟨who, r', ha, hcloses, -⟩)
  · rcases h with ⟨ha', hpc⟩ | ⟨-, who, ha', -⟩
    · obtain rfl : side = side' := Option.some.inj (ha'.symm.trans ha)
      rw [hpc] at hcloses
      cases hcloses
    · rw [who_of_side ha] at ha'
      cases ha'
  · rcases h with ⟨ha', -⟩ | ⟨-, who', ha', hpc⟩
    · rw [who_of_side ha'] at ha
      cases ha
    · obtain rfl : who' = who := Option.some.inj (ha'.symm.trans ha)
      rw [hpc] at hcloses
      cases hcloses

omit [DecidableEq Thread] in
theorem Careful.not_stale (h : s.Careful a) (hreading : s.Reading a side) (hstale : s.Stale side) :
    (s.channel side).sockfd = none := by
  rcases hreading with ⟨ha, hpc⟩ | ⟨rfl, who, ha, hpc⟩
  · exact (h.1 side ha).2 hpc hstale
  · exact (h.2 who ha).2.1 hpc hstale

/-! ### Careful runs -/

omit [DecidableEq Thread] in
/-- What is read from `sockfd` is current, unless it was closed just now. -/
theorem Booked.current_ref (h : Booked s side) (hstale : s.Stale side → (s.channel side).sockfd = none) :
    s.Current (s.channel side).ref := by
  intro n hn
  change (s.channel side).sockfd = some n at hn
  have hno : ¬s.Stale side := by
    intro hyes
    rw [hstale hyes] at hn
    cases hn
  have hsole := h.sole hno
  rw [hn] at hsole
  obtain ⟨d, hd, hof⟩ := hsole.at
  exact ⟨d, hd, h.current hno n d hd hof⟩

omit [DecidableEq Thread] in
theorem Current.step (h : s.Current r) (hown : s.Own side r.socket)
    (hmove : TableMove s a s'.table s'.sockets)
    (hclosing : ∀ n, r.fd = some n → ¬s.Closing a (some n)) : s'.Current r := by
  intro n hn
  obtain ⟨d, hd, hsocket⟩ := h n hn
  have hof : d.owner = some side := (hown d.socket hsocket).2 n d hd rfl
  have howner : d.owner ≠ none := by
    rw [hof]
    exact Option.some_ne_none side
  obtain ⟨d', hd', hsame⟩ := hmove.stays hd howner (hclosing n hn)
  exact ⟨d', hd', by rw [hsame, hsocket]⟩

/-- One step. -/
theorem Sound.step (h : s.Sound) (hbooked : ∀ side, Booked s side) (hknown : ∀ side, Known s side)
    (hs : Transition s a s') (hcareful : s.Careful a) : s'.Sound := by
  have hmove := tableMove_of_step hs
  constructor
  · intro side r hr
    rcases uses_of_step hs hr with hold | ⟨rfl, hreading⟩
    · exact (h.uses side r hold).step ((hknown side).uses r hold) hmove
        fun n hn => hcareful.not_closing hold hn
    · have hcurrent := (hbooked side).current_ref (hcareful.not_stale hreading)
      exact hcurrent.step (hknown side).socket hmove fun n _ => hreading.not_closing
  · intro who failed r hwho n d hfd hd
    -- the descriptor in `sockfd` has not changed
    have hsame : r.fd = (s.channel .commands).sockfd → ¬s.Stale .commands →
        ∃ d', s.table n = some d' ∧ d'.Of .commands ∧ d'.socket = d.socket := by
      intro hfd' hstale
      have hsole := (hbooked .commands).sole hstale
      rw [← hfd', hfd] at hsole
      obtain ⟨e, he, hof⟩ := hsole.at
      rcases hmove.entry hd with ⟨d', hd', hsocket, -⟩ | ⟨hfree, -⟩
      · obtain rfl : e = d' := Option.some.inj (he.symm.trans hd')
        exact ⟨e, he, hof, hsocket⟩
      · rw [hfree] at he
        cases he
    have hstale : (s.senders who).locked → s.senders who ≠ .clear → ¬s.Stale .commands := by
      intro hlocked
      obtain ⟨-, -, -, hno⟩ := (hbooked .commands).senderHolds hlocked
      exact hno
    rcases closes_of_step hs hwho with hold | ⟨ha, hold, rfl⟩
    · obtain ⟨d', hd', -, hsocket⟩ := hsame ((hbooked .commands).closes rfl who r (by rw [hold]; rfl))
        (hstale (by rw [hold]; trivial) (by rw [hold]; intro heq; cases heq))
      rw [← hsocket]
      exact h.closes who failed r hold n d' hfd hd'
    · have hno := hstale (by rw [hold]; trivial) (by rw [hold]; intro heq; cases heq)
      obtain ⟨d', hd', hof, hsocket⟩ := hsame rfl hno
      obtain ⟨-, -, hfailed⟩ := hcareful.2 who ha
      rcases hfailed failed (by rw [hold]; rfl) with hnone | hsocket'
      · change (s.channel .commands).sockfd = some n at hfd
        rw [hnone] at hfd
        cases hfd
      · rw [← hsocket', ← hsocket]
        exact (hbooked .commands).current hno n d' hd' hof

/-! ### Steps that are not careful -/

omit [DecidableEq Thread] in
theorem SenderMove.closes {c : Channel Thread} {pc pc' : SenderPc} (h : SenderMove s c pc pc') :
    pc.closes = none := by
  cases h <;> rfl

omit [DecidableEq Thread] in
theorem Move.closes {c : Channel Thread} {pc pc' : LoopPc} (h : Move s c pc pc') :
    pc.closes = none := by
  cases h <;> rfl

/-- The steps of one loop: it goes on, it closes, or it does neither and reads nothing. -/
theorem Transition.of_loop (h : Transition s a s') (ha : a.side = some side) :
    (∃ pc, Move s (s.channel side) (s.channel side).pc pc ∧ s' = s.goto side pc) ∨
      (∃ r pc, (s.channel side).pc.closes = some r ∧ s' = (s.close r.fd).goto side pc) ∨
      (s.channel side).pc.closes = none ∧ (s.channel side).pc ≠ .readInner := by
  have hside : ∀ {side' : Side}, a.side = some side' → side' = side := by
    intro side' ha'
    exact Option.some.inj (ha'.symm.trans ha)
  cases h with
  | @goto side' pc ha' hmove =>
      obtain rfl := hside ha'
      exact .inl ⟨pc, hmove, rfl⟩
  | @close side' r ha' hpc =>
      obtain rfl := hside ha'
      exact .inr (.inl ⟨r, .clear, by rw [hpc]; rfl, rfl⟩)
  | @closeFailed side' r ha' hpc =>
      obtain rfl := hside ha'
      exact .inr (.inl ⟨r, .clearFailed, by rw [hpc]; rfl, rfl⟩)
  | @lock side' ha' hpc _ | @clear side' ha' hpc | @noSocket side' ha' hpc
  | @socket side' n ha' hpc _ | @connect side' r n ha' hpc _ | @clearFailed side' ha' hpc
  | @unlockRetry side' ha' hpc | @unlockConnected side' ha' hpc =>
      obtain rfl := hside ha'
      rw [hpc]
      exact .inr (.inr ⟨rfl, fun heq => by cases heq⟩)
  | senderGoto ha' _ | senderLock ha' _ _ | senderClose ha' _ | senderClear ha' _
  | senderUnlock ha' _ =>
      rw [who_of_side ha] at ha'
      cases ha'
  | openOther ha' _ _ | closeOther ha' _ _ _ =>
      rw [ha] at ha'
      cases ha'

/-- The steps of one sender. -/
theorem Transition.of_sender (h : Transition s a s') {who : Option Thread} (ha : a.who = some who) :
    (∃ pc, SenderMove s (s.channel .commands) (s.senders who) pc ∧ s' = s.setSender who pc) ∨
      (∃ r, (s.senders who).closes = some r ∧ s' = (s.close r.fd).setSender who .clear) ∨
      (s.senders who).closes = none ∧ s.senders who ≠ .readWrite ∧
        (s.senders who).failed = none := by
  have hwho : ∀ {who' : Option Thread}, a.who = some who' → who' = who := by
    intro who' ha'
    exact Option.some.inj (ha'.symm.trans ha)
  have hside : ∀ {side : Side}, a.side ≠ some side := by
    intro side ha'
    rw [who_of_side ha'] at ha
    cases ha
  cases h with
  | @senderGoto who' pc ha' hmove =>
      obtain rfl := hwho ha'
      exact .inl ⟨pc, hmove, rfl⟩
  | @senderClose who' failed r ha' hpc =>
      obtain rfl := hwho ha'
      exact .inr (.inl ⟨r, by rw [hpc]; rfl, rfl⟩)
  | @senderLock who' failed ha' hpc _ | @senderClear who' ha' hpc | @senderUnlock who' ha' hpc =>
      obtain rfl := hwho ha'
      rw [hpc]
      exact .inr (.inr ⟨rfl, (fun heq => by cases heq), rfl⟩)
  | goto ha' _ | lock ha' _ _ | close ha' _ | clear ha' _ | noSocket ha' _ | socket ha' _ _
  | connect ha' _ _ | closeFailed ha' _ | clearFailed ha' _ | unlockRetry ha' _
  | unlockConnected ha' _ => exact (hside ha').elim
  | openOther _ ha' _ | closeOther _ ha' _ _ =>
      rw [ha] at ha'
      cases ha'

omit [DecidableEq Thread] in
/-- What is closed while it is in use is not current any more. -/
theorem Sound.not_inUse (h : s'.Sound) {fd : Option ℕ} (htable : s'.table = s.table.free fd)
    (huses : ∀ side r, s.Uses side r → s'.Uses side r) : ¬s.InUse fd := by
  intro huse
  obtain ⟨side, r, hr, hfd⟩ := uses_of_inUse huse
  cases fd with
  | none => exact huse.1 rfl
  | some n =>
      obtain ⟨d, hd, -⟩ := h.uses side r (huses side r hr) n hfd
      rw [htable, Slots.free_self] at hd
      cases hd

omit [DecidableEq Thread] in
/-- What is read from a stale `sockfd` is not current. -/
theorem Booked.empty_ref (h : Booked s side) (hknown : Known s side)
    (hcurrent : s.Current (s.channel side).ref) (hstale : s.Stale side) :
    (s.channel side).sockfd = none := by
  cases hfd : (s.channel side).sockfd with
  | none => rfl
  | some n =>
      obtain ⟨d, hd, hsocket⟩ := hcurrent n hfd
      exact ((h.stale hstale).not_of_none hd ((hknown.socket d.socket hsocket).2 n d hd rfl)).elim

theorem Sound.carefulLoop (h : s'.Sound) (hbooked : Booked s side) (hknown : Known s side)
    (hs : Transition s a s') (ha : a.side = some side) : s.CarefulLoop side := by
  rcases hs.of_loop ha with ⟨pc, hmove, rfl⟩ | ⟨r, pc, hcloses, rfl⟩ | ⟨hcloses, hpc⟩
  · refine ⟨fun r hr => ?_, fun hpc => ?_⟩
    · rw [hmove.closes] at hr
      cases hr
    · rw [hpc] at hmove
      cases hmove
      refine hbooked.empty_ref hknown (h.uses side _ (.inl ?_))
      rw [goto_self]
      rfl
  · have hno : (s.channel side).pc.uses = none ∧ (s.channel side).pc ≠ .readInner := by
      cases hpc : (s.channel side).pc with
      | close r' | closeFailed r' => exact ⟨rfl, fun heq => by cases heq⟩
      | _ =>
          rw [hpc] at hcloses
          cases hcloses
    refine ⟨fun r' hr' => ?_, fun hpc => (hno.2 hpc).elim⟩
    obtain rfl : r = r' := Option.some.inj (hcloses.symm.trans hr')
    refine h.not_inUse rfl fun side' r' huse => ?_
    rcases huse with hpc | hwho
    · have hne : side' ≠ side := by
        rintro rfl
        rw [hno.1] at hpc
        cases hpc
      refine .inl ?_
      rw [Network.goto, setChannel_ne _ hne]
      exact hpc
    · exact .inr hwho
  · refine ⟨fun r hr => ?_, fun hpc' => (hpc hpc').elim⟩
    rw [hcloses] at hr
    cases hr

theorem Sound.carefulSender (h : s'.Sound) (hbooked : Booked s .commands)
    (hknown : Known s .commands) (hs : Transition s a s') {who : Option Thread}
    (ha : a.who = some who) : s.CarefulSender who := by
  rcases hs.of_sender ha with ⟨pc, hmove, rfl⟩ | ⟨r, hcloses, rfl⟩ | ⟨hcloses, hpc, hfailed⟩
  · refine ⟨fun r hr => ?_, fun hpc => ?_, fun failed hfailed => ?_⟩
    · rw [hmove.closes] at hr
      cases hr
    · rw [hpc] at hmove
      cases hmove
      refine hbooked.empty_ref hknown (h.uses .commands _ (.inr ⟨rfl, who, ?_⟩))
      rw [setSender_self]
      rfl
    · have hpc : s.senders who = .readClose failed := SenderPc.eq_of_failed hfailed
      rw [hpc] at hmove
      cases hmove
      have hlocked : (s.senders who).locked := by
        rw [hpc]
        trivial
      obtain ⟨-, -, -, hstale⟩ := hbooked.senderHolds hlocked
      have hno := hstale (by rw [hpc]; intro heq; cases heq)
      have hsole := hbooked.sole hno
      cases hfd : (s.channel .commands).sockfd with
      | none => exact .inl rfl
      | some n =>
          rw [hfd] at hsole
          obtain ⟨d, hd, hof⟩ := hsole.at
          refine .inr ?_
          rw [h.closes who failed _ (setSender_self s who _) n d hfd hd]
          exact hbooked.current hno n d hd hof
  · have hno : (s.senders who).uses = none ∧ s.senders who ≠ .readWrite ∧
        (s.senders who).failed = none := by
      cases hpc : s.senders who with
      | close failed r' => exact ⟨rfl, (fun heq => by cases heq), rfl⟩
      | _ =>
          rw [hpc] at hcloses
          cases hcloses
    refine ⟨fun r' hr' => ?_, fun hpc => (hno.2.1 hpc).elim, fun failed hfailed => ?_⟩
    · obtain rfl : r = r' := Option.some.inj (hcloses.symm.trans hr')
      refine h.not_inUse rfl fun side r' huse => ?_
      rcases huse with hpc | ⟨hside, who', hwho'⟩
      · exact .inl hpc
      · refine .inr ⟨hside, who', ?_⟩
        have hne : who' ≠ who := by
          rintro rfl
          rw [hno.1] at hwho'
          cases hwho'
        rw [setSender_ne _ hne]
        exact hwho'
    · rw [hno.2.2] at hfailed
      cases hfailed
  · refine ⟨fun r hr => ?_, fun hpc' => (hpc hpc').elim, fun failed hfailed' => ?_⟩
    · rw [hcloses] at hr
      cases hr
    · rw [hfailed] at hfailed'
      cases hfailed'

/-- Exactly the careful steps keep descriptors from being used after they were closed. -/
theorem sound_iff_careful (hreach : machine.Reachable s) (h : s.Sound)
    (hstep : machine.step s a = some s') : s'.Sound ↔ s.Careful a := by
  have hs := transition_of_step hstep
  constructor
  · intro h'
    exact ⟨fun side ha => h'.carefulLoop (booked hreach side) (known hreach side) hs ha,
      fun who ha => h'.carefulSender (booked hreach .commands) (known hreach .commands) hs ha⟩
  · exact h.step (booked hreach) (known hreach) hs

omit [DecidableEq Thread] in
theorem sound_init (isLocal : Bool) (addrTooLong : Side → Bool) :
    (init isLocal addrTooLong : Network Thread).Sound := by
  constructor
  · rintro side r (hpc | ⟨-, who, hwho⟩)
    · cases hpc
    · cases hwho
  · intro who failed r hwho
    cases hwho

/-- **Descriptors.** In careful runs none is used after it was closed; no other step would do. -/
theorem descriptors_sound (h : machine.Reach Careful s) :
    s.Sound ∧ ∀ a s', machine.step s a = some s' → (s'.Sound ↔ s.Careful a) := by
  have hsound : machine.Reachable s ∧ s.Sound := by
    apply h.invariant (I := fun s => machine.Reachable s ∧ s.Sound)
    · rintro s ⟨isLocal, addrTooLong, rfl⟩
      exact ⟨⟨_, ⟨isLocal, addrTooLong, rfl⟩, .refl⟩, sound_init isLocal addrTooLong⟩
    · rintro s a s' ⟨hreach, hs⟩ hcareful hstep
      exact ⟨hreach.leads (.head trivial hstep .refl), (sound_iff_careful hreach hs hstep).mpr hcareful⟩
  exact ⟨hsound.2, fun a s' => sound_iff_careful hsound.1 hsound.2⟩

end

/-! ### Runs of one calling thread -/

instance : Fintype Side := ⟨{.commands, .reader}, fun side => by cases side <;> simp⟩

theorem stale_iff (pc : LoopPc) : pc = .clear ∨ pc = .clearFailed ↔ pc.stale := by
  cases pc <;> simp [LoopPc.stale]

instance : DecidablePred LoopPc.stale := fun pc => decidable_of_iff _ (stale_iff pc)

section

variable [Fintype Thread] (s : Network Thread)

instance (side : Side) : Decidable (s.Stale side) := inferInstanceAs (Decidable (_ ∨ _))

instance (fd : Option ℕ) : Decidable (s.InUse fd) := inferInstanceAs (Decidable (_ ∧ _))

instance (side : Side) : Decidable (s.CarefulLoop side) := inferInstanceAs (Decidable (_ ∧ _))

instance (who : Option Thread) : Decidable (s.CarefulSender who) :=
  inferInstanceAs (Decidable (_ ∧ _))

instance (a : NetworkAction Thread) : Decidable (s.Careful a) := inferInstanceAs (Decidable (_ ∧ _))

end

def closedByWriter : List (NetworkAction Unit) :=
  [.loop .commands, .loop .commands] ++ connectCommands 3 ++
    [.send (some ()), .sender (some ()), .sender (some ()), .written (some ()) false] ++
    List.replicate 5 (.sender (some ())) ++ List.replicate 3 (.loop .commands) ++
    connectCommands 3 ++ [.loop .commands, .loop .commands]

theorem closedByWriter_sound :
    ∃ s, machine.exec Careful (init false fun _ => false) closedByWriter = some s ∧
      s.closed = [0] ∧ (s.channel .commands).pc = .poll ⟨some 3, some 1⟩ ∧ s.Sound ∧
      ∀ a s', machine.step s a = some s' → (s'.Sound ↔ s.Careful a) := by
  have hexec : (machine.exec Careful (init false fun _ => false) closedByWriter).map
      (fun s => (s.closed, (s.channel .commands).pc)) = some ([0], .poll ⟨some 3, some 1⟩) := by
    decide +kernel
  obtain ⟨s, hs, hstate⟩ := Option.map_eq_some_iff.mp hexec
  obtain ⟨hclosed, hpc⟩ := Prod.mk.inj hstate
  exact ⟨s, hs, hclosed, hpc, descriptors_sound ⟨_, ⟨false, fun _ => false, rfl⟩, .of_exec hs⟩⟩

def reconnectedBeforeClose : List (NetworkAction Unit) :=
  [.loop .commands, .loop .commands] ++ connectCommands 3 ++
    [.send (some ()), .sender (some ()), .sender (some ()), .written (some ()) false,
      .loop .commands, .loop .commands, .pollReady .commands, .received .commands false] ++
    List.replicate 7 (.loop .commands) ++ connectCommands 3 ++
    [.sender (some ()), .sender (some ())]

/-- The new connection is about to be closed. -/
theorem reconnectedBeforeClose_unsound :
    ∃ s : Network Unit, machine.Reachable s ∧ ¬s.Sound := by
  have hexec : (machine.exec (fun _ _ => True) (init false fun _ => false)
      reconnectedBeforeClose).map (fun s => (s.senders (some ()), s.table 3)) =
        some (.close ⟨some 3, some 0⟩ ⟨some 3, some 1⟩, some ⟨1, some .commands, true⟩) := by
    decide +kernel
  obtain ⟨s, hs, hstate⟩ := Option.map_eq_some_iff.mp hexec
  obtain ⟨hwho, htable⟩ := Prod.mk.inj hstate
  refine ⟨s, ⟨_, ⟨false, fun _ => false, rfl⟩, .of_exec hs⟩, fun hsound => ?_⟩
  have hsocket := hsound.closes _ _ _ hwho 3 _ rfl htable
  cases hsocket

end Network

end OtiKiosk
