import OtiKiosk.Client.Connection

/-!
The books of the connections: which descriptors the client has open, and what its
`sockfd` says. Whoever changes either holds the mutex, and both agree whenever it is
free. In between, a descriptor may be closed and not yet forgotten, or open and not
yet connected.
-/

namespace OtiKiosk

def LoopPc.locked : LoopPc → Prop
  | .lock | .testInner | .readInner | .poll _ | .read _ | .recvCb => False
  | _ => True

/-- The descriptor is closed, and `sockfd` not cleared yet. -/
def LoopPc.stale : LoopPc → Prop
  | .clear | .clearFailed => True
  | _ => False

/-- The descriptor may be open and not connected. -/
def LoopPc.connecting : LoopPc → Prop
  | .testSocket | .readConnect | .connect _ | .readFailed | .closeFailed _ => True
  | _ => False

def LoopPc.opening : LoopPc → Prop
  | .resolve | .testPath | .socket | .unlockRetry => True
  | _ => False

/-- What was read from `sockfd` while the mutex was held. -/
def LoopPc.held : LoopPc → Option Ref
  | .shutdown r | .close r | .connect r | .closeFailed r => some r
  | _ => none

def LoopPc.closes : LoopPc → Option Ref
  | .close r | .closeFailed r => some r
  | _ => none

def SenderPc.locked : SenderPc → Prop
  | .readClose _ | .close _ _ | .clear | .unlock => True
  | _ => False

def SenderPc.closes : SenderPc → Option Ref
  | .close _ r => some r
  | _ => none

def Descriptor.Of (side : Side) (d : Descriptor) : Prop := d.owner = some side

theorem Descriptor.Of.ne {d : Descriptor} {side side' : Side} (h : d.Of side)
    (hne : side' ≠ side) : ¬d.Of side' := by
  intro h'
  exact hne (Option.some.inj (h'.symm.trans h))

variable {Thread : Type}

namespace Network

def Stale (s : Network Thread) (side : Side) : Prop :=
  (s.channel side).pc.stale ∨ side = .commands ∧ ∃ who, s.senders who = .clear

structure Booked (s : Network Thread) (side : Side) : Prop where
  loop : (s.channel side).mutex = some .loop ↔ (s.channel side).pc.locked
  sender : ∀ who, (s.channel side).mutex = some (.sender who) ↔
    side = .commands ∧ (s.senders who).locked
  /-- The open descriptor is the one in `sockfd`. -/
  sole : ¬s.Stale side → s.table.Sole (Descriptor.Of side) (s.channel side).sockfd
  stale : s.Stale side → s.table.Sole (Descriptor.Of side) none
  connected : ¬(s.channel side).pc.connecting → ∀ n d, s.table n = some d → d.Of side →
    d.connected = true
  held : ∀ r, (s.channel side).pc.held = some r → r.fd = (s.channel side).sockfd
  closes : side = .commands → ∀ who r, (s.senders who).closes = some r →
    r.fd = (s.channel side).sockfd
  opening : (s.channel side).pc.opening → (s.channel side).sockfd = none
  /-- The socket that `sockfd` stands for. -/
  current : ¬s.Stale side → ∀ n d, s.table n = some d → d.Of side →
    (s.channel side).socket = some d.socket
  taken : (s.channel side).pc.locked → (s.channel side).locks = (s.channel side).unlocks + 1
  released : ¬(s.channel side).pc.locked → (s.channel side).locks = (s.channel side).unlocks

theorem booked_init (isLocal : Bool) (addrTooLong : Side → Bool) (side : Side) :
    Booked (init isLocal addrTooLong : Network Thread) side where
  loop := iff_of_false (fun h => by cases h) (fun h => h)
  sender who := iff_of_false (fun h => by cases h) (fun h => h.2)
  sole _ := Slots.sole_empty
  stale h := by
    rcases h with h | ⟨-, who, hwho⟩
    · exact h.elim
    · cases hwho
  connected _ n d hd := by cases hd
  held r hr := by cases hr
  closes _ who r hr := by cases hr
  opening h := h.elim
  current _ n d hd := by cases hd
  taken h := h.elim
  released _ := rfl

section

variable {s s' : Network Thread} {side : Side} {pc pc' : LoopPc}

/-! ### Who holds the mutex -/

theorem Booked.no_sender (h : Booked s side) (hpc : (s.channel side).pc.locked) (who : Option Thread) :
    ¬(side = .commands ∧ (s.senders who).locked) := by
  rw [← h.sender who, h.loop.mpr hpc]
  intro heq
  cases heq

theorem Booked.no_loop (h : Booked s .commands) {who : Option Thread} (hwho : (s.senders who).locked) :
    ¬(s.channel .commands).pc.locked := by
  intro hpc
  exact h.no_sender hpc who ⟨rfl, hwho⟩

theorem Booked.sender_eq (h : Booked s .commands) {who who' : Option Thread}
    (hwho : (s.senders who).locked) (hwho' : (s.senders who').locked) : who = who' := by
  have hmutex := (h.sender who).mpr ⟨rfl, hwho⟩
  rw [(h.sender who').mpr ⟨rfl, hwho'⟩] at hmutex
  cases hmutex
  rfl

theorem locked_of_stale (h : pc.stale) : pc.locked := by
  cases pc <;> trivial

theorem locked_of_connecting (h : pc.connecting) : pc.locked := by
  cases pc <;> trivial

theorem of_opening (h : pc.opening) : pc.locked ∧ ¬pc.stale := by
  cases pc with
  | resolve | testPath | socket | unlockRetry => exact ⟨trivial, id⟩
  | _ => exact h.elim

theorem of_closes {r : Ref} (h : pc.closes = some r) :
    pc.locked ∧ ¬pc.stale ∧ pc.held = some r := by
  cases pc with
  | close r' | closeFailed r' => exact ⟨trivial, id, h⟩
  | _ => cases h

/-- While the loop holds the mutex, only the loop itself leaves `sockfd` stale. -/
theorem Booked.stale_iff (h : Booked s side) (hpc : (s.channel side).pc.locked) :
    s.Stale side ↔ (s.channel side).pc.stale := by
  constructor
  · rintro (hstale | ⟨hside, who, hwho⟩)
    · exact hstale
    · refine (h.no_sender hpc who ⟨hside, ?_⟩).elim
      rw [hwho]
      trivial
  · exact .inl

theorem locked_of_closes {pc : SenderPc} {r : Ref} (h : pc.closes = some r) : pc.locked := by
  cases pc with
  | close failed r' => trivial
  | _ => cases h

/-! ### Steps of others -/

/-- Steps that do not touch the socket. -/
theorem Booked.frame (h : Booked s side) (hchannel : s'.channel side = s.channel side)
    (hsenders : side = .commands → s'.senders = s.senders)
    (hsame : Slots.Same (Descriptor.Of side) s.table s'.table) : Booked s' side := by
  have hstale : s'.Stale side ↔ s.Stale side := by
    rw [Stale, Stale, hchannel]
    refine or_congr_right (and_congr_right fun hside => ?_)
    rw [hsenders hside]
  constructor
  · rw [hchannel]
    exact h.loop
  · intro who
    rw [hchannel, h.sender who]
    refine and_congr_right fun hside => ?_
    rw [hsenders hside]
  · rw [hstale, hchannel]
    exact fun hno => (h.sole hno).congr hsame
  · rw [hstale]
    exact fun hyes => (h.stale hyes).congr hsame
  · rw [hchannel]
    exact fun hpc n d hd hof => h.connected hpc n d ((hsame n d hof).mp hd) hof
  · rw [hchannel]
    exact h.held
  · intro hside
    rw [hchannel, hsenders hside]
    exact h.closes hside
  · rw [hchannel]
    exact h.opening
  · rw [hstale, hchannel]
    exact fun hno n d hd hof => h.current hno n d ((hsame n d hof).mp hd) hof
  · rw [hchannel]
    exact h.taken
  · rw [hchannel]
    exact h.released

/-- Steps of the command socket's senders do not touch the other socket. -/
theorem Booked.of_sender (h : ∀ side, Booked s side) (hself : Booked s' .commands)
    (hchannel : s'.channel .reader = s.channel .reader)
    (hsame : Slots.Same (Descriptor.Of .reader) s.table s'.table) (side : Side) :
    Booked s' side := by
  cases side with
  | commands => exact hself
  | reader => exact (h .reader).frame hchannel (fun heq => by cases heq) hsame

/-- Nor does the loop of one socket touch the other. -/
theorem Booked.of_loop (h : ∀ side, Booked s side) {side : Side} (hself : Booked s' side)
    (hchannel : ∀ side', side' ≠ side → s'.channel side' = s.channel side')
    (hsenders : s'.senders = s.senders)
    (hsame : ∀ side', side' ≠ side → Slots.Same (Descriptor.Of side') s.table s'.table)
    (side' : Side) : Booked s' side' := by
  by_cases hside : side' = side
  · exact hside ▸ hself
  · exact (h side').frame (hchannel side' hside) (fun _ => hsenders) (hsame side' hside)

/-- What is closed under the mutex is the descriptor of the socket, or nothing. -/
theorem Booked.same_close (hsole : s.table.Sole (Descriptor.Of side) (s.channel side).sockfd)
    {fd : Option ℕ} (hfd : fd = (s.channel side).sockfd) {side' : Side} (hne : side' ≠ side) :
    Slots.Same (Descriptor.Of side') s.table (s.table.free fd) := by
  cases fd with
  | none => exact .refl _ _
  | some n =>
      rw [← hfd] at hsole
      obtain ⟨d, hd, hof⟩ := hsole.at
      exact .free hd (hof.ne hne)

/-! ### Steps of the loop -/

theorem openPc_locked (c : Channel Thread) : c.openPc.locked := by
  rw [Channel.openPc]
  split <;> trivial

theorem openPc_not_stale (c : Channel Thread) : ¬c.openPc.stale := by
  rw [Channel.openPc]
  split <;> exact id

theorem openPc_held (c : Channel Thread) : c.openPc.held = none := by
  rw [Channel.openPc]
  split <;> rfl

structure Move.Keeps (c : Channel Thread) (pc pc' : LoopPc) : Prop where
  locked : pc'.locked ↔ pc.locked
  stale : ¬pc.stale
  stale' : ¬pc'.stale
  connecting : pc.connecting → ¬pc'.connecting → c.sockfd = none
  held : ∀ r, pc'.held = some r → r = c.ref
  opening : pc'.opening → pc.opening ∨ c.sockfd = none

theorem Move.keeps {c : Channel Thread} (h : Move s c pc pc') : Move.Keeps c pc pc' := by
  have hsame : ∀ r : Ref, some c.ref = some r → r = c.ref := fun r hr => (Option.some.inj hr).symm
  have hnone : ∀ r : Ref, none = some r → r = c.ref := fun r hr => by cases hr
  cases h with
  | unconnected hfd =>
      have hheld := openPc_held c
      refine ⟨iff_of_true (openPc_locked c) trivial, id, openPc_not_stale c, False.elim, ?_,
        fun _ => .inr hfd⟩
      intro r hr
      rw [hheld] at hr
      cases hr
  | noSocket hfd =>
      exact ⟨iff_of_true trivial trivial, id, id, fun _ _ => hfd, hnone, fun _ => .inr hfd⟩
  | readShutdown | readClose =>
      exact ⟨iff_of_true trivial trivial, id, id, False.elim, hsame, False.elim⟩
  | readConnect | readFailed =>
      exact ⟨iff_of_true trivial trivial, id, id, fun _ h => (h trivial).elim, hsame,
        False.elim⟩
  | socket _ | refused r =>
      exact ⟨iff_of_true trivial trivial, id, id, fun _ h => (h trivial).elim,
        hnone, False.elim⟩
  | resolved | fits | unresolved | tooLong =>
      exact ⟨iff_of_true trivial trivial, id, id, False.elim, hnone,
        fun _ => .inl trivial⟩
  | connected _ | shutdown r =>
      exact ⟨iff_of_true trivial trivial, id, id, False.elim, hnone, False.elim⟩
  | gone _ | present _ | readInner | pollFails r | pollTimeout r | pollReady r _ | received r _
  | hungUp r | handled =>
      exact ⟨iff_of_false id id, id, id, False.elim, hnone, False.elim⟩

theorem Booked.goto (h : Booked s side) (hmove : Move s (s.channel side) (s.channel side).pc pc) :
    Booked (s.goto side pc) side := by
  have hkeeps := hmove.keeps
  have hstale : (s.goto side pc).Stale side ↔ s.Stale side := by
    rw [Stale, Stale, goto_self]
    exact or_congr (iff_of_false hkeeps.stale' hkeeps.stale) Iff.rfl
  constructor
  · rw [goto_self, hkeeps.locked]
    exact h.loop
  · rw [goto_self]
    exact h.sender
  · rw [hstale, goto_self]
    exact h.sole
  · rw [hstale]
    exact h.stale
  · rw [goto_self]
    intro hpc n d hd hof
    by_cases hconnecting : (s.channel side).pc.connecting
    · -- the socket could not be opened
      have hnone := hkeeps.connecting hconnecting hpc
      have hsole : s.table.Sole (Descriptor.Of side) none := by
        by_cases hyes : s.Stale side
        · exact h.stale hyes
        · exact hnone ▸ h.sole hyes
      exact (hsole.not_of_none hd hof).elim
    · exact h.connected hconnecting n d hd hof
  · rw [goto_self]
    intro r hr
    rw [hkeeps.held r hr]
    rfl
  · rw [goto_self]
    exact h.closes
  · rw [goto_self]
    exact fun hpc => (hkeeps.opening hpc).elim h.opening id
  · rw [hstale, goto_self]
    exact h.current
  · rw [goto_self, hkeeps.locked]
    exact h.taken
  · rw [goto_self, hkeeps.locked]
    exact h.released

/-- Steps of the loop under the mutex. -/
theorem Booked.inside (h : Booked s side) {c : Channel Thread} (hchannel : s'.channel side = c)
    (hsenders : s'.senders = s.senders) (hpc : (s.channel side).pc.locked) (hpc' : c.pc.locked)
    (hmutex : c.mutex = (s.channel side).mutex)
    (hcounts : c.locks = (s.channel side).locks ∧ c.unlocks = (s.channel side).unlocks)
    (hsole : ¬c.pc.stale → s'.table.Sole (Descriptor.Of side) c.sockfd)
    (hstale : c.pc.stale → s'.table.Sole (Descriptor.Of side) none)
    (hconnected : ¬c.pc.connecting → ∀ n d, s'.table n = some d → d.Of side → d.connected = true)
    (hheld : ∀ r, c.pc.held = some r → r.fd = c.sockfd) (hopening : c.pc.opening → c.sockfd = none)
    (hcurrent : ¬c.pc.stale → ∀ n d, s'.table n = some d → d.Of side → c.socket = some d.socket) :
    Booked s' side := by
  subst hchannel
  have hnone : ∀ who, ¬(side = .commands ∧ (s'.senders who).locked) := by
    intro who
    rw [hsenders]
    exact h.no_sender hpc who
  have hiff : s'.Stale side ↔ (s'.channel side).pc.stale := by
    refine ⟨?_, .inl⟩
    rintro (hyes | ⟨hside, who, hwho⟩)
    · exact hyes
    · refine (hnone who ⟨hside, ?_⟩).elim
      rw [hwho]
      trivial
  obtain ⟨hlocks, hunlocks⟩ := hcounts
  constructor
  · rw [hmutex]
    exact iff_of_true (h.loop.mpr hpc) hpc'
  · intro who
    refine iff_of_false ?_ (hnone who)
    rw [hmutex, h.loop.mpr hpc]
    intro heq
    cases heq
  · rw [hiff]
    exact hsole
  · rw [hiff]
    exact hstale
  · exact hconnected
  · exact hheld
  · intro hside who r hr
    exact (hnone who ⟨hside, locked_of_closes hr⟩).elim
  · exact hopening
  · rw [hiff]
    exact hcurrent
  · rw [hlocks, hunlocks]
    exact fun _ => h.taken hpc
  · exact fun hno => (hno hpc').elim

theorem Booked.sole_of_locked (h : Booked s side) (hpc : (s.channel side).pc.locked)
    (hstale : ¬(s.channel side).pc.stale) :
    s.table.Sole (Descriptor.Of side) (s.channel side).sockfd :=
  h.sole ((h.stale_iff hpc).not.mpr hstale)

/-- The loop closes the descriptor in `sockfd`. -/
theorem Booked.close (h : Booked s side) {r : Ref} (hcloses : (s.channel side).pc.closes = some r)
    (hpc : pc.stale) : Booked ((s.close r.fd).goto side pc) side := by
  obtain ⟨hlocked, hstale, hheld⟩ := of_closes hcloses
  have hsole : (s.table.free r.fd).Sole (Descriptor.Of side) none := by
    rw [h.held r hheld]
    exact (h.sole_of_locked hlocked hstale).free
  have hnone : pc.held = none ∧ ¬pc.opening := by
    cases pc with
    | clear | clearFailed => exact ⟨rfl, id⟩
    | _ => exact hpc.elim
  refine h.inside (goto_self _ pc) rfl hlocked (locked_of_stale hpc) rfl ⟨rfl, rfl⟩
    (fun hno => (hno hpc).elim) (fun _ => hsole) ?_ ?_ ?_ (fun hno => (hno hpc).elim)
  · intro _ n d hd hof
    exact (hsole.not_of_none hd hof).elim
  · intro r' hr'
    rw [hnone.1] at hr'
    cases hr'
  · exact fun hopening => (hnone.2 hopening).elim

theorem cleared_ne (s : Network Thread) {side side' : Side} (hne : side' ≠ side) (pc : LoopPc) :
    ((s.clearFd side).goto side pc).channel side' = s.channel side' := by
  rw [Network.goto, setChannel_ne _ hne, clearFd, setChannel_ne _ hne]

/-- The loop clears `sockfd`, when no descriptor is open. -/
theorem Booked.cleared (h : Booked s side) (hlocked : (s.channel side).pc.locked)
    (hsole : s.table.Sole (Descriptor.Of side) none) (hpc : pc.locked) (hstale : ¬pc.stale)
    (hheld : pc.held = none) : Booked ((s.clearFd side).goto side pc) side := by
  have hchannel : ((s.clearFd side).goto side pc).channel side =
      { s.channel side with sockfd := none, socket := none, pc := pc } := by
    rw [goto_self, clearFd_self]
  refine h.inside hchannel rfl hlocked hpc rfl ⟨rfl, rfl⟩ (fun _ => hsole)
    (fun hyes => (hstale hyes).elim) ?_ ?_ (fun _ => rfl) ?_
  · intro _ n d hd hof
    exact (hsole.not_of_none hd hof).elim
  · intro r hr
    rw [hheld] at hr
    cases hr
  · intro _ n d hd hof
    exact (hsole.not_of_none hd hof).elim

theorem Booked.openFd (h : Booked s side) (hpc : (s.channel side).pc = .socket) {n : ℕ} :
    Booked ((s.openFd (some side) n).setChannel side
      { s.channel side with sockfd := some n, socket := some s.sockets, pc := .testSocket }) side := by
  have hlocked : (s.channel side).pc.locked := by
    rw [hpc]
    trivial
  have hnone : s.table.Sole (Descriptor.Of side) none := by
    rw [← h.opening (by rw [hpc]; trivial)]
    exact h.sole_of_locked hlocked (by rw [hpc]; exact id)
  have hsole : (s.table.take n ⟨s.sockets, some side, false⟩).Sole (Descriptor.Of side) (some n) :=
    hnone.take rfl
  refine h.inside (setChannel_self _ _) rfl hlocked trivial rfl ⟨rfl, rfl⟩ (fun _ => hsole)
    False.elim (fun hno => (hno trivial).elim) (fun r hr => by cases hr) False.elim ?_
  intro _ m d hd hof
  obtain rfl : n = m := Option.some.inj (hsole.eq_of hd hof)
  have hself := Slots.take_self (t := s.table) (n := n) (x := ⟨s.sockets, some side, false⟩)
  obtain rfl : _ = d := Option.some.inj (hself.symm.trans hd)
  rfl

theorem Booked.connect (h : Booked s side) {r : Ref} {n : ℕ}
    (hpc : (s.channel side).pc = .connect r) (hfd : r.fd = some n) :
    Booked ({ s with table := s.table.alter n ({ · with connected := true }) }.goto side
      .unlockConnected) side := by
  have hlocked : (s.channel side).pc.locked := by
    rw [hpc]
    trivial
  have hstale : ¬(s.channel side).pc.stale := by
    rw [hpc]
    exact id
  have hsockfd : (s.channel side).sockfd = some n := by
    rw [← hfd, h.held r (by rw [hpc]; rfl)]
  have hsole := h.sole_of_locked hlocked hstale
  have hsole' : (s.table.alter n ({ · with connected := true })).Sole (Descriptor.Of side)
      (s.channel side).sockfd := hsole.alter fun d => Iff.rfl
  -- the descriptor that was there
  have hentry : ∀ m d, s.table.alter n ({ · with connected := true }) m = some d → d.Of side →
      ∃ d', s.table m = some d' ∧ d'.Of side ∧ d = { d' with connected := true } := by
    intro m d hd hof
    obtain rfl : n = m := Option.some.inj (hsockfd.symm.trans (hsole'.eq_of hd hof))
    rw [Slots.alter_self, Option.map_eq_some_iff] at hd
    obtain ⟨d', hd', rfl⟩ := hd
    exact ⟨d', hd', hof, rfl⟩
  refine h.inside (goto_self _ _) rfl hlocked trivial rfl ⟨rfl, rfl⟩ (fun _ => hsole') False.elim ?_
    (fun r hr => by cases hr) False.elim ?_
  · intro _ m d hd hof
    obtain ⟨d', -, -, rfl⟩ := hentry m d hd hof
    rfl
  · intro _ m d hd hof
    obtain ⟨d', hd', hof', rfl⟩ := hentry m d hd hof
    exact h.current ((h.stale_iff hlocked).not.mpr hstale) m d' hd' hof'

theorem Booked.lock (h : Booked s side) (hpc : (s.channel side).pc = .lock)
    (hmutex : (s.channel side).mutex = none) :
    Booked (s.setChannel side { s.channel side with
      mutex := some .loop, pc := .testFd, locks := (s.channel side).locks + 1 }) side := by
  have hsender : ∀ who, ¬(side = .commands ∧ (s.senders who).locked) := by
    intro who
    rw [← h.sender who, hmutex]
    intro heq
    cases heq
  have hstale : ∀ pc : LoopPc, ¬pc.stale →
      ¬(pc.stale ∨ side = .commands ∧ ∃ who, s.senders who = .clear) := by
    rintro pc hno (hyes | ⟨hside, who, hwho⟩)
    · exact hno hyes
    · refine hsender who ⟨hside, ?_⟩
      rw [hwho]
      trivial
  have hbefore : ¬s.Stale side := hstale _ (by rw [hpc]; exact id)
  have hconnecting : ¬(s.channel side).pc.connecting := by
    rw [hpc]
    exact id
  constructor
  · rw [setChannel_self]
    exact iff_of_true rfl trivial
  · intro who
    rw [setChannel_self]
    refine iff_of_false (fun heq => ?_) (hsender who)
    cases heq
  · rw [setChannel_self]
    exact fun _ => h.sole hbefore
  · rw [Stale, setChannel_self]
    exact fun hyes => (hstale .testFd id hyes).elim
  · exact fun _ => h.connected hconnecting
  · rw [setChannel_self]
    intro r hr
    cases hr
  · rw [setChannel_self]
    exact h.closes
  · rw [setChannel_self]
    exact False.elim
  · rw [setChannel_self]
    exact fun _ => h.current hbefore
  · rw [setChannel_self]
    intro _
    rw [h.released (by rw [hpc]; exact id)]
  · rw [setChannel_self]
    exact fun hno => (hno trivial).elim

/-- The loop releases the mutex. -/
theorem Booked.unlock (h : Booked s side) (hlocked : (s.channel side).pc.locked)
    (hstale : ¬(s.channel side).pc.stale) (hconnecting : ¬(s.channel side).pc.connecting)
    (hpc : ¬pc.locked) (hheld : pc.held = none) (hopening : ¬pc.opening) :
    Booked (s.setChannel side { s.channel side with
      mutex := none, pc := pc, unlocks := (s.channel side).unlocks + 1 }) side := by
  have hsender := h.no_sender hlocked
  have hbefore : ¬s.Stale side := (h.stale_iff hlocked).not.mpr hstale
  constructor
  · rw [setChannel_self]
    refine iff_of_false (fun heq => ?_) hpc
    cases heq
  · intro who
    rw [setChannel_self]
    refine iff_of_false (fun heq => ?_) (hsender who)
    cases heq
  · rw [setChannel_self]
    exact fun _ => h.sole hbefore
  · rw [Stale, setChannel_self]
    rintro (hyes | ⟨hside, who, hwho⟩)
    · exact (hpc (locked_of_stale hyes)).elim
    · refine (hsender who ⟨hside, ?_⟩).elim
      change s.senders who = .clear at hwho
      rw [hwho]
      trivial
  · exact fun _ => h.connected hconnecting
  · rw [setChannel_self]
    intro r hr
    rw [hheld] at hr
    cases hr
  · rw [setChannel_self]
    exact h.closes
  · rw [setChannel_self]
    exact fun hyes => (hopening hyes).elim
  · rw [setChannel_self]
    exact fun _ => h.current hbefore
  · rw [setChannel_self]
    exact fun hyes => (hpc hyes).elim
  · rw [setChannel_self]
    exact fun _ => h.taken hlocked

theorem booked_closed (h : ∀ side, Booked s side) {r : Ref}
    (hcloses : (s.channel side).pc.closes = some r) (hpc : pc.stale) :
    ∀ side', Booked ((s.close r.fd).goto side pc) side' := by
  obtain ⟨hlocked, hstale, hheld⟩ := of_closes hcloses
  have hsole := (h side).sole_of_locked hlocked hstale
  have hfd := (h side).held r hheld
  exact .of_loop h ((h side).close hcloses hpc) (fun _ hne => setChannel_ne _ hne _) rfl
    fun _ hne => Booked.same_close hsole hfd hne

theorem booked_unlocked (h : ∀ side, Booked s side) (hlocked : (s.channel side).pc.locked)
    (hstale : ¬(s.channel side).pc.stale) (hconnecting : ¬(s.channel side).pc.connecting)
    (hpc : ¬pc.locked) (hheld : pc.held = none) (hopening : ¬pc.opening) :
    ∀ side', Booked (s.setChannel side { s.channel side with
      mutex := none, pc := pc, unlocks := (s.channel side).unlocks + 1 }) side' :=
  .of_loop h ((h side).unlock hlocked hstale hconnecting hpc hheld hopening)
    (fun _ hne => setChannel_ne s hne _) rfl fun _ _ => .refl _ _

/-! ### Steps of the senders -/

theorem SenderMove.keeps {c : Channel Thread} {pc pc' : SenderPc} (h : SenderMove s c pc pc') :
    (pc'.locked ↔ pc.locked) ∧ pc ≠ .clear ∧ pc' ≠ .clear ∧
      ∀ r, pc'.closes = some r → r = c.ref := by
  have hnone : ∀ r : Ref, none = some r → r = c.ref := fun r hr => by cases hr
  cases h with
  | readClose failed =>
      refine ⟨iff_of_true trivial trivial, ?_, ?_, fun r hr => (Option.some.inj hr).symm⟩
      · intro heq
        cases heq
      · intro heq
        cases heq
  | _ =>
      refine ⟨iff_of_false id id, ?_, ?_, hnone⟩
      · intro heq
        cases heq
      · intro heq
        cases heq

/-- A sender that holds the mutex is the only one to use it. -/
theorem Booked.senderHolds (h : Booked s .commands) {who : Option Thread}
    (hwho : (s.senders who).locked) :
    ¬(s.channel .commands).pc.locked ∧ (∀ who', who' ≠ who → ¬(s.senders who').locked) ∧
      (s.channel .commands).mutex = some (.sender who) ∧
      (s.senders who ≠ .clear → ¬s.Stale .commands) := by
  refine ⟨h.no_loop hwho, fun who' hne hlocked => hne (h.sender_eq hlocked hwho),
    (h.sender who).mpr ⟨rfl, hwho⟩, ?_⟩
  rintro hclear (hyes | ⟨-, who', hwho'⟩)
  · exact h.no_loop hwho (locked_of_stale hyes)
  · have hlocked : (s.senders who').locked := by
      rw [hwho']
      trivial
    obtain rfl := h.sender_eq hlocked hwho
    exact hclear hwho'

/-! ### Sockets that were closed -/

/-- The sockets have different numbers, and those that were closed are not open. -/
structure Numbered (s : Network Thread) : Prop where
  fresh : ∀ n d, s.table n = some d → d.socket < s.sockets
  unique : ∀ n m d d', s.table n = some d → s.table m = some d' → d.socket = d'.socket → n = m
  past : ∀ k ∈ s.closed, k < s.sockets ∧ ∀ n d, s.table n = some d → d.socket ≠ k
  nodup : s.closed.Nodup

/-- Entries may go, or change in other respects. -/
theorem Numbered.mono (h : Numbered s) (hsockets : s'.sockets = s.sockets)
    (hclosed : s'.closed = s.closed)
    (hentries : ∀ n d, s'.table n = some d → ∃ d', s.table n = some d' ∧ d'.socket = d.socket) :
    Numbered s' where
  fresh := by
    intro n d hd
    obtain ⟨d', hd', hsocket⟩ := hentries n d hd
    rw [← hsocket, hsockets]
    exact h.fresh n d' hd'
  unique := by
    intro n m d e hd he heq
    obtain ⟨d', hd', hsocket⟩ := hentries n d hd
    obtain ⟨e', he', hsocket'⟩ := hentries m e he
    exact h.unique n m d' e' hd' he' (by rw [hsocket, hsocket', heq])
  past := by
    rw [hclosed, hsockets]
    intro k hk
    obtain ⟨hlt, hne⟩ := h.past k hk
    refine ⟨hlt, fun n d hd => ?_⟩
    obtain ⟨d', hd', hsocket⟩ := hentries n d hd
    rw [← hsocket]
    exact hne n d' hd'
  nodup := by
    rw [hclosed]
    exact h.nodup

theorem Numbered.same (h : Numbered s) (hsockets : s'.sockets = s.sockets)
    (hclosed : s'.closed = s.closed) (htable : s'.table = s.table) : Numbered s' := by
  refine h.mono hsockets hclosed fun n d hd => ?_
  rw [htable] at hd
  exact ⟨d, hd, rfl⟩

theorem Numbered.close (h : Numbered s) {fd : Option ℕ} (hsockets : s'.sockets = s.sockets)
    (htable : s'.table = s.table.free fd) (hclosed : s'.closed = (s.close fd).closed) :
    Numbered s' := by
  have hmono : Numbered { s with table := s.table.free fd } :=
    h.mono rfl rfl fun n d hd => ⟨d, (Slots.of_free hd).1, rfl⟩
  cases hat : fd.bind s.table with
  | none =>
      have hnone : s'.closed = s.closed := by
        rw [hclosed, Network.close, hat]
        rfl
      exact hmono.same hsockets hnone htable
  | some e =>
      obtain ⟨n, rfl, he⟩ := Option.bind_eq_some_iff.mp hat
      have hcons : s'.closed = e.socket :: s.closed := by
        rw [hclosed, Network.close, hat]
        rfl
      constructor
      · rw [hsockets, htable]
        exact hmono.fresh
      · rw [htable]
        exact hmono.unique
      · rw [hsockets, htable, hcons]
        intro k hk
        rcases List.mem_cons.mp hk with rfl | hk
        · refine ⟨h.fresh n e he, fun m d hd heq => ?_⟩
          obtain ⟨hd, hne⟩ := Slots.of_free hd
          exact hne (congrArg some (h.unique m n d e hd he heq).symm)
        · exact hmono.past k hk
      · rw [hcons, List.nodup_cons]
        exact ⟨fun hmem => (h.past _ hmem).2 n e he rfl, h.nodup⟩

theorem Numbered.openFd (h : Numbered s) {owner : Option Side} {n : ℕ}
    (hsockets : s'.sockets = s.sockets + 1) (hclosed : s'.closed = s.closed)
    (htable : s'.table = s.table.take n ⟨s.sockets, owner, false⟩) : Numbered s' := by
  have hentry : ∀ m d, s'.table m = some d →
      m = n ∧ d.socket = s.sockets ∨ s.table m = some d ∧ d.socket < s.sockets := by
    intro m d hd
    rw [htable] at hd
    by_cases hm : m = n
    · subst hm
      rw [Slots.take_self] at hd
      obtain rfl := Option.some.inj hd
      exact .inl ⟨rfl, rfl⟩
    · rw [Slots.take_ne hm] at hd
      exact .inr ⟨hd, h.fresh m d hd⟩
  constructor
  · intro m d hd
    rw [hsockets]
    rcases hentry m d hd with ⟨-, hsocket⟩ | ⟨-, hlt⟩ <;> omega
  · intro m m' d d' hd hd' heq
    rcases hentry m d hd with ⟨rfl, hsocket⟩ | ⟨hold, hlt⟩
    · rcases hentry m' d' hd' with ⟨rfl, -⟩ | ⟨-, hlt'⟩
      · rfl
      · omega
    · rcases hentry m' d' hd' with ⟨rfl, hsocket'⟩ | ⟨hold', -⟩
      · omega
      · exact h.unique m m' d d' hold hold' heq
  · rw [hclosed, hsockets]
    intro k hk
    obtain ⟨hlt, hne⟩ := h.past k hk
    refine ⟨Nat.lt_succ_of_lt hlt, fun m d hd => ?_⟩
    rcases hentry m d hd with ⟨-, hsocket⟩ | ⟨hold, -⟩
    · omega
    · exact hne m d hold
  · rw [hclosed]
    exact h.nodup

variable [DecidableEq Thread]

/-- What is true of all senders after one of them has moved. -/
theorem forall_setSender {P : Option Thread → SenderPc → Prop} {who : Option Thread} {pc : SenderPc}
    (hself : P who pc) (hother : ∀ who', who' ≠ who → P who' (s.senders who')) (who' : Option Thread) :
    P who' ((s.setSender who pc).senders who') := by
  by_cases hne : who' = who
  · subst hne
    rw [setSender_self]
    exact hself
  · rw [setSender_ne s hne]
    exact hother who' hne

theorem Booked.senderGoto (h : Booked s .commands) {who : Option Thread} {pc : SenderPc}
    (hmove : SenderMove s (s.channel .commands) (s.senders who) pc) :
    Booked (s.setSender who pc) .commands := by
  obtain ⟨hlocked, hclear, hclear', hcloses⟩ := hmove.keeps
  have hstale : (s.setSender who pc).Stale .commands ↔ s.Stale .commands := by
    refine or_congr_right (and_congr_right fun _ => ⟨?_, ?_⟩)
    · rintro ⟨who', hwho'⟩
      by_cases hne : who' = who
      · subst hne
        rw [setSender_self] at hwho'
        exact (hclear' hwho').elim
      · rw [setSender_ne s hne] at hwho'
        exact ⟨who', hwho'⟩
    · rintro ⟨who', hwho'⟩
      have hne : who' ≠ who := by
        rintro rfl
        exact hclear hwho'
      refine ⟨who', ?_⟩
      rw [setSender_ne s hne]
      exact hwho'
  constructor
  · exact h.loop
  · apply forall_setSender (P := fun who' pc' => (s.channel .commands).mutex =
      some (.sender who') ↔ Side.commands = .commands ∧ pc'.locked)
    · rw [hlocked]
      exact h.sender who
    · exact fun who' _ => h.sender who'
  · rw [hstale]
    exact h.sole
  · rw [hstale]
    exact h.stale
  · exact h.connected
  · exact h.held
  · intro hside
    apply forall_setSender (P := fun who' pc' => ∀ r, pc'.closes = some r →
      r.fd = (s.channel .commands).sockfd)
    · intro r hr
      rw [hcloses r hr]
      rfl
    · exact fun who' _ => h.closes hside who'
  · exact h.opening
  · rw [hstale]
    exact h.current
  · exact h.taken
  · exact h.released

/-- Steps of the sender that holds the mutex, or takes or releases it. -/
theorem Booked.senderStep (h : Booked s .commands) {who : Option Thread} {c : Channel Thread}
    {pc : SenderPc} {t : Slots Descriptor} {closed : List ℕ}
    (hs : s' = { s.setChannel .commands c with
      table := t, closed := closed }.setSender who pc)
    (hunlocked : ¬(s.channel .commands).pc.locked)
    (hothers : ∀ who', who' ≠ who → ¬(s.senders who').locked)
    (hpc : c.pc = (s.channel .commands).pc)
    (hcounts : c.locks = (s.channel .commands).locks ∧ c.unlocks = (s.channel .commands).unlocks)
    (hmutex : c.mutex = some (.sender who) ∧ pc.locked ∨ c.mutex = none ∧ ¬pc.locked)
    (hsole : pc ≠ .clear → t.Sole (Descriptor.Of .commands) c.sockfd)
    (hstale : pc = .clear → t.Sole (Descriptor.Of .commands) none)
    (hentries : ∀ n d, t n = some d → s.table n = some d)
    (hcloses : ∀ r, pc.closes = some r → r.fd = c.sockfd)
    (hcurrent : pc ≠ .clear → ∀ n d, t n = some d → d.Of .commands → c.socket = some d.socket)
    (hsockfd : c.sockfd = (s.channel .commands).sockfd ∨ c.sockfd = none) :
    Booked s' .commands := by
  subst hs
  have hchannel : ({ s.setChannel .commands c with table := t, closed := closed }.setSender who
      pc).channel .commands = c := by
    show (s.setChannel .commands c).channel .commands = c
    rw [setChannel_self]
  have hpc' : ¬c.pc.locked := by
    rw [hpc]
    exact hunlocked
  -- nobody else holds the mutex, so the descriptor is stale just while this sender clears it
  have hiff : ({ s.setChannel .commands c with table := t, closed := closed }.setSender who
      pc).Stale .commands ↔ pc = .clear := by
    rw [Stale, hchannel]
    constructor
    · rintro (hyes | ⟨-, who', hwho'⟩)
      · exact (hpc' (locked_of_stale hyes)).elim
      · by_cases hne : who' = who
        · subst hne
          rw [setSender_self] at hwho'
          exact hwho'
        · rw [setSender_ne _ hne] at hwho'
          change s.senders who' = .clear at hwho'
          refine (hothers who' hne ?_).elim
          rw [hwho']
          trivial
    · intro hclear
      refine .inr ⟨rfl, who, ?_⟩
      rw [setSender_self]
      exact hclear
  have hconnecting : ¬(s.channel .commands).pc.connecting := by
    intro hyes
    apply hunlocked
    cases hat : (s.channel .commands).pc <;> rw [hat] at hyes <;> trivial
  have hheld : c.pc.held = none := by
    cases hat : c.pc <;> rw [hat] at hpc' <;> first | rfl | exact (hpc' trivial).elim
  have hloop : c.mutex ≠ some .loop := by
    rcases hmutex with ⟨hmutex, -⟩ | ⟨hmutex, -⟩ <;> rw [hmutex] <;> intro heq <;> cases heq
  have hself : c.mutex = some (.sender who) ↔ pc.locked := by
    rcases hmutex with ⟨hmutex, hlocked⟩ | ⟨hmutex, hfree⟩
    · exact iff_of_true hmutex hlocked
    · rw [hmutex]
      exact iff_of_false (fun heq => by cases heq) hfree
  have hnone : ∀ who', who' ≠ who → c.mutex ≠ some (.sender who') := by
    intro who' hne heq
    rcases hmutex with ⟨hmutex, -⟩ | ⟨hmutex, -⟩
    · rw [hmutex] at heq
      apply hne
      cases heq
      rfl
    · rw [hmutex] at heq
      cases heq
  obtain ⟨hlocks, hunlocks⟩ := hcounts
  constructor
  · rw [hchannel]
    exact iff_of_false hloop hpc'
  · rw [hchannel]
    apply forall_setSender (P := fun who' pc' => c.mutex = some (.sender who') ↔
      Side.commands = .commands ∧ pc'.locked)
    · rw [hself]
      exact (and_iff_right rfl).symm
    · exact fun who' hne => iff_of_false (hnone who' hne) fun hyes => hothers who' hne hyes.2
  · rw [hiff, hchannel]
    exact hsole
  · rw [hiff]
    exact hstale
  · intro _ n d hd hof
    exact h.connected hconnecting n d (hentries n d hd) hof
  · rw [hchannel, hheld]
    intro r hr
    cases hr
  · intro _
    rw [hchannel]
    apply forall_setSender (P := fun _ pc' => ∀ r, pc'.closes = some r → r.fd = c.sockfd)
    · exact hcloses
    · intro who' hne r hr
      exact (hothers who' hne (locked_of_closes hr)).elim
  · rw [hchannel]
    intro hopening
    rw [hpc] at hopening
    rcases hsockfd with hsame | hcleared
    · exact hsame.trans (h.opening hopening)
    · exact hcleared
  · rw [hiff, hchannel]
    exact hcurrent
  · rw [hchannel]
    exact fun hyes => (hpc' hyes).elim
  · rw [hchannel, hlocks, hunlocks]
    exact fun _ => h.released hunlocked

theorem Booked.senderLock (h : Booked s .commands) (who : Option Thread) (failed : Ref)
    (hmutex : (s.channel .commands).mutex = none) :
    Booked ((s.takeMutex .commands (.sender who)).setSender who (.readClose failed)) .commands := by
  have hunlocked : ¬(s.channel .commands).pc.locked := by
    rw [← h.loop, hmutex]
    intro heq
    cases heq
  have hothers : ∀ who', ¬(s.senders who').locked := by
    intro who' hlocked
    have hheld := (h.sender who').mpr ⟨rfl, hlocked⟩
    rw [hmutex] at hheld
    cases hheld
  have hstale : ¬s.Stale .commands := by
    rintro (hyes | ⟨-, who', hwho'⟩)
    · exact hunlocked (locked_of_stale hyes)
    · apply hothers who'
      rw [hwho']
      trivial
  refine h.senderStep (c := { s.channel .commands with mutex := some (.sender who) }) (t := s.table)
    rfl hunlocked (fun who' _ => hothers who') rfl ⟨rfl, rfl⟩ (.inl ⟨rfl, trivial⟩)
    (fun _ => h.sole hstale) ?_ (fun _ _ hd => hd) ?_ (fun _ n d hd hof => h.current hstale n d hd hof)
    (.inl rfl)
  · intro heq
    cases heq
  · intro r hr
    cases hr

theorem Booked.senderClose (h : Booked s .commands) {who : Option Thread} {failed r : Ref}
    (hwho : s.senders who = .close failed r) :
    Booked ((s.close r.fd).setSender who .clear) .commands := by
  have hlocked : (s.senders who).locked := by
    rw [hwho]
    trivial
  obtain ⟨hunlocked, hothers, hmutex, hstale⟩ := h.senderHolds hlocked
  have hfd : r.fd = (s.channel .commands).sockfd := h.closes rfl who r (by rw [hwho]; rfl)
  -- it is the descriptor of the socket that is freed
  have hsole : (s.table.free r.fd).Sole (Descriptor.Of .commands) none := by
    rw [hfd]
    refine (h.sole (hstale ?_)).free
    rw [hwho]
    intro heq
    cases heq
  have hs : (s.close r.fd).setSender who .clear =
      { s.setChannel .commands (s.channel .commands) with
        table := s.table.free r.fd
        closed := (s.close r.fd).closed }.setSender who .clear := by
    rw [setChannel, Function.update_eq_self]
    rfl
  refine h.senderStep hs hunlocked hothers rfl ⟨rfl, rfl⟩ (.inl ⟨hmutex, trivial⟩)
    (fun hno => (hno rfl).elim) (fun _ => hsole) (fun n d hd => (Slots.of_free hd).1) ?_
    (fun hno => (hno rfl).elim) (.inl rfl)
  intro r' hr'
  cases hr'

theorem Booked.senderClear (h : Booked s .commands) {who : Option Thread}
    (hwho : s.senders who = .clear) :
    Booked ((s.clearFd .commands).setSender who .unlock) .commands := by
  have hlocked : (s.senders who).locked := by
    rw [hwho]
    trivial
  obtain ⟨hunlocked, hothers, hmutex, -⟩ := h.senderHolds hlocked
  have hsole : s.table.Sole (Descriptor.Of .commands) none := h.stale (.inr ⟨rfl, who, hwho⟩)
  refine h.senderStep (c := { s.channel .commands with sockfd := none, socket := none })
    (t := s.table) rfl hunlocked hothers rfl ⟨rfl, rfl⟩ (.inl ⟨hmutex, trivial⟩) (fun _ => hsole)
    (fun _ => hsole) (fun _ _ hd => hd) ?_ ?_ (.inr rfl)
  · intro r hr
    cases hr
  · intro _ n d hd hof
    exact (hsole.not_of_none hd hof).elim

theorem Booked.senderUnlock (h : Booked s .commands) {who : Option Thread}
    (hwho : s.senders who = .unlock) :
    Booked ((s.releaseMutex .commands).setSender who .idle) .commands := by
  have hlocked : (s.senders who).locked := by
    rw [hwho]
    trivial
  obtain ⟨hunlocked, hothers, hmutex, hstale⟩ := h.senderHolds hlocked
  have hno : ¬s.Stale .commands := by
    apply hstale
    rw [hwho]
    intro heq
    cases heq
  refine h.senderStep (c := { s.channel .commands with mutex := none }) (t := s.table) rfl hunlocked
    hothers rfl ⟨rfl, rfl⟩ (.inr ⟨rfl, id⟩) (fun _ => h.sole hno) ?_ (fun _ _ hd => hd) ?_
    (fun _ n d hd hof => h.current hno n d hd hof) (.inl rfl)
  · intro heq
    cases heq
  · intro r hr
    cases hr

/-! ### All steps -/

theorem booked_step {a : NetworkAction Thread} (h : ∀ side, Booked s side)
    (hs : Transition s a s') : ∀ side, Booked s' side := by
  cases hs with
  | @goto side pc _ hmove =>
      exact .of_loop h ((h side).goto hmove) (fun side' hne => setChannel_ne s hne _) rfl
        fun _ _ => .refl _ _
  | @lock side _ hpc hmutex =>
      exact .of_loop h ((h side).lock hpc hmutex) (fun side' hne => setChannel_ne s hne _) rfl
        fun _ _ => .refl _ _
  | @close side r _ hpc => exact booked_closed h (by rw [hpc]; rfl) trivial
  | @clear side _ hpc =>
      have hsole := (h side).stale (.inl (by rw [hpc]; trivial))
      exact .of_loop h ((h side).cleared (by rw [hpc]; trivial) hsole (openPc_locked _)
        (openPc_not_stale _) (openPc_held _)) (fun side' hne => cleared_ne s hne _) rfl
        fun _ _ => .refl _ _
  | @noSocket side _ hpc =>
      have hlocked : (s.channel side).pc.locked := by
        rw [hpc]
        trivial
      have hsole := (h side).sole_of_locked hlocked (by rw [hpc]; exact id)
      rw [(h side).opening (by rw [hpc]; trivial)] at hsole
      have hself : Booked ((s.clearFd side).goto side .testSocket) side :=
        (h side).cleared hlocked hsole trivial id rfl
      exact .of_loop h hself (fun side' hne => cleared_ne s hne _) rfl fun _ _ => .refl _ _
  | @socket side n _ hpc hfree =>
      exact .of_loop h ((h side).openFd hpc) (fun side' hne => setChannel_ne _ hne _) rfl
        fun side' hne => .take hfree fun hof => hne (Option.some.inj hof).symm
  | @connect side r n _ hpc hfd =>
      have hlocked : (s.channel side).pc.locked := by
        rw [hpc]
        trivial
      have hsole := (h side).sole_of_locked hlocked (by rw [hpc]; exact id)
      rw [← (h side).held r (by rw [hpc]; rfl), hfd] at hsole
      obtain ⟨d, hd, hof⟩ := hsole.at
      have hof' : Descriptor.Of side { d with connected := true } := hof
      exact .of_loop h ((h side).connect hpc hfd) (fun side' hne => setChannel_ne _ hne _) rfl
        fun side' hne => .alter hd (hof.ne hne) (hof'.ne hne)
  | @closeFailed side r _ hpc => exact booked_closed h (by rw [hpc]; rfl) trivial
  | @clearFailed side _ hpc =>
      have hsole := (h side).stale (.inl (by rw [hpc]; trivial))
      have hself : Booked ((s.clearFd side).goto side .unlockRetry) side :=
        (h side).cleared (by rw [hpc]; trivial) hsole trivial id rfl
      exact .of_loop h hself (fun side' hne => cleared_ne s hne _) rfl fun _ _ => .refl _ _
  | @unlockRetry side _ hpc =>
      exact booked_unlocked h (by rw [hpc]; trivial) (by rw [hpc]; exact id)
        (by rw [hpc]; exact id) id rfl id
  | @unlockConnected side _ hpc =>
      exact booked_unlocked h (by rw [hpc]; trivial) (by rw [hpc]; exact id)
        (by rw [hpc]; exact id) id rfl id
  | @senderGoto who pc _ hmove =>
      exact .of_sender h ((h .commands).senderGoto hmove) rfl (.refl _ _)
  | @senderLock who failed _ _ hmutex =>
      exact .of_sender h ((h .commands).senderLock who failed hmutex) rfl (.refl _ _)
  | @senderClose who failed r _ hpc =>
      have hlocked : (s.senders who).locked := by
        rw [hpc]
        trivial
      obtain ⟨-, -, -, hstale⟩ := (h .commands).senderHolds hlocked
      have hsole := (h .commands).sole (hstale (by rw [hpc]; intro heq; cases heq))
      have hfd := (h .commands).closes rfl who r (by rw [hpc]; rfl)
      have hne : Side.reader ≠ .commands := by
        intro heq
        cases heq
      exact .of_sender h ((h .commands).senderClose hpc) rfl (Booked.same_close hsole hfd hne)
  | @senderClear who _ hpc => exact .of_sender h ((h .commands).senderClear hpc) rfl (.refl _ _)
  | @senderUnlock who _ hpc => exact .of_sender h ((h .commands).senderUnlock hpc) rfl (.refl _ _)
  | openOther _ _ hfree =>
      refine fun side => (h side).frame rfl (fun _ => rfl) (.take hfree fun hof => ?_)
      cases hof
  | closeOther _ _ hd howner =>
      refine fun side => (h side).frame rfl (fun _ => rfl) (.free hd fun hof => ?_)
      rw [Descriptor.Of, howner] at hof
      cases hof

theorem booked {s : Network Thread} (h : machine.Reachable s) (side : Side) : Booked s side := by
  apply h.invariant (I := fun s => ∀ side, Booked s side)
  · rintro s ⟨isLocal, addrTooLong, rfl⟩
    exact booked_init isLocal addrTooLong
  · intro s a s' hI _ hstep
    exact booked_step hI (transition_of_step hstep)

theorem numbered_step {a : NetworkAction Thread} (h : Numbered s) (hs : Transition s a s') :
    Numbered s' := by
  cases hs with
  | close _ _ | closeFailed _ _ | senderClose _ _ => exact h.close rfl rfl rfl
  | socket _ _ _ | openOther _ _ _ => exact h.openFd rfl rfl rfl
  | @connect side r n _ _ _ =>
      refine h.mono rfl rfl fun m d hd => ?_
      change s.table.alter n ({ · with connected := true }) m = some d at hd
      by_cases hm : m = n
      · subst hm
        rw [Slots.alter_self, Option.map_eq_some_iff] at hd
        obtain ⟨d', hd', rfl⟩ := hd
        exact ⟨d', hd', rfl⟩
      · rw [Slots.alter_ne hm] at hd
        exact ⟨d, hd, rfl⟩
  | @closeOther n e _ _ _ _ =>
      refine h.mono rfl rfl fun m d hd => ?_
      change s.table.free (some n) m = some d at hd
      exact ⟨d, (Slots.of_free hd).1, rfl⟩
  | _ => exact h.same rfl rfl rfl

theorem numbered {s : Network Thread} (h : machine.Reachable s) : Numbered s := by
  apply h.invariant
  · rintro s ⟨isLocal, addrTooLong, rfl⟩
    refine ⟨fun n d hd => ?_, fun n m d d' hd => ?_, fun k hk => ?_, List.nodup_nil⟩
    · cases hd
    · cases hd
    · cases hk
  · intro s a s' hI _ hstep
    exact numbered_step hI (transition_of_step hstep)

/-! ### What the books promise -/

def Closes (s : Network Thread) (side : Side) (r : Ref) : Prop :=
  (s.channel side).pc.closes = some r ∨
    side = .commands ∧ ∃ who, (s.senders who).closes = some r

def Empty (s : Network Thread) (side : Side) : Prop := ∀ n d, s.table n = some d → ¬d.Of side

structure Kept (s : Network Thread) (side : Side) : Prop where
  single : ∀ n m d d', s.table n = some d → s.table m = some d' → d.Of side → d'.Of side → n = m
  /-- While the mutex is free, `sockfd` is negative, or the open descriptor, which is connected. -/
  free : (s.channel side).mutex = none → (s.channel side).sockfd = none ∧ s.Empty side ∨
    ∃ n d, (s.channel side).sockfd = some n ∧ s.table n = some d ∧ d.Of side ∧ d.connected = true
  /-- What is closed is open, and was opened for this socket. -/
  closing : ∀ r, s.Closes side r →
    r.fd = none ∨ ∃ n d, r.fd = some n ∧ s.table n = some d ∧ d.Of side
  /-- Nothing is left of the last connection, or of an attempt that failed. -/
  emptied : (s.channel side).pc.opening → (s.channel side).sockfd = none ∧ s.Empty side
  holding : (s.channel side).pc.locked → (s.channel side).mutex = some .loop ∧
    (s.channel side).locks = (s.channel side).unlocks + 1
  released : ¬(s.channel side).pc.locked → (s.channel side).mutex ≠ some .loop ∧
    (s.channel side).locks = (s.channel side).unlocks

omit [DecidableEq Thread] in
theorem empty_of_sole (h : s.table.Sole (Descriptor.Of side) none) : s.Empty side :=
  fun _ _ hd => h.not_of_none hd

omit [DecidableEq Thread] in
/-- Whoever closes, holds the mutex, and has not closed yet. -/
theorem Booked.sole_of_closes (h : Booked s side) {r : Ref} (hcloses : s.Closes side r) :
    s.table.Sole (Descriptor.Of side) r.fd := by
  rcases hcloses with hpc | ⟨rfl, who, hwho⟩
  · obtain ⟨hlocked, hstale, hheld⟩ := of_closes hpc
    rw [h.held r hheld]
    exact h.sole_of_locked hlocked hstale
  · obtain ⟨-, -, -, hstale⟩ := h.senderHolds (locked_of_closes hwho)
    rw [h.closes rfl who r hwho]
    refine h.sole (hstale ?_)
    intro hclear
    rw [hclear] at hwho
    cases hwho

omit [DecidableEq Thread] in
theorem Booked.kept (h : Booked s side) : s.Kept side where
  single := by
    have hsole : ∃ o, s.table.Sole (Descriptor.Of side) o := by
      by_cases hstale : s.Stale side
      · exact ⟨none, h.stale hstale⟩
      · exact ⟨_, h.sole hstale⟩
    obtain ⟨o, hsole⟩ := hsole
    intro n m d d' hd hd' hof hof'
    have hn := hsole.eq_of hd hof
    rw [hsole.eq_of hd' hof'] at hn
    exact (Option.some.inj hn).symm
  free := by
    intro hmutex
    have hlocked : ¬(s.channel side).pc.locked := by
      rw [← h.loop, hmutex]
      intro heq
      cases heq
    have hstale : ¬s.Stale side := by
      rintro (hyes | ⟨hside, who, hwho⟩)
      · exact hlocked (locked_of_stale hyes)
      · have hmutex' := (h.sender who).mpr ⟨hside, by rw [hwho]; trivial⟩
        rw [hmutex] at hmutex'
        cases hmutex'
    have hsole := h.sole hstale
    cases hfd : (s.channel side).sockfd with
    | none => exact .inl ⟨rfl, empty_of_sole (hfd ▸ hsole)⟩
    | some n =>
        rw [hfd] at hsole
        obtain ⟨d, hd, hof⟩ := hsole.at
        refine .inr ⟨n, d, rfl, hd, hof, h.connected ?_ n d hd hof⟩
        exact fun hconnecting => hlocked (locked_of_connecting hconnecting)
  closing := by
    intro r hcloses
    have hsole := h.sole_of_closes hcloses
    cases hfd : r.fd with
    | none => exact .inl rfl
    | some n =>
        rw [hfd] at hsole
        obtain ⟨d, hd, hof⟩ := hsole.at
        exact .inr ⟨n, d, rfl, hd, hof⟩
  emptied := by
    intro hopening
    have hnone := h.opening hopening
    obtain ⟨hlocked, hstale⟩ := of_opening hopening
    have hsole := h.sole_of_locked hlocked hstale
    rw [hnone] at hsole
    exact ⟨hnone, empty_of_sole hsole⟩
  holding hpc := ⟨h.loop.mpr hpc, h.taken hpc⟩
  released hpc := ⟨h.loop.not.mpr hpc, h.released hpc⟩

/-- **The books of the connections.** -/
theorem connections_kept (h : machine.Reachable s) :
    (∀ side, s.Kept side) ∧ s.closed.Nodup ∧
      ∀ k ∈ s.closed, ∀ n d, s.table n = some d → d.socket ≠ k := by
  have hnumbered := numbered h
  refine ⟨fun side => (booked h side).kept, hnumbered.nodup, fun k hk => ?_⟩
  exact (hnumbered.past k hk).2

end

def connectCommands (fd : ℕ) : List (NetworkAction Unit) :=
  [.resolved .commands true, .opened .commands (some fd), .loop .commands, .loop .commands,
    .connected .commands true, .loop .commands]

def reconnected : List (NetworkAction Unit) :=
  [.loop .commands, .loop .commands] ++ connectCommands 3 ++
    [.send (some ()), .sender (some ()), .sender (some ()), .written (some ()) false] ++
    List.replicate 5 (.sender (some ())) ++ List.replicate 3 (.loop .commands) ++ connectCommands 3

theorem reconnected_kept :
    ∃ s, machine.exec (fun _ _ => True) (init false fun _ => false) reconnected = some s ∧
      (s.channel .commands).sockfd = some 3 ∧ s.closed = [0] ∧
      (∀ side, s.Kept side) ∧ s.closed.Nodup ∧
        ∀ k ∈ s.closed, ∀ n d, s.table n = some d → d.socket ≠ k := by
  have hexec : (machine.exec (fun _ _ => True) (init false fun _ => false) reconnected).map
      (fun s => ((s.channel .commands).sockfd, s.closed)) = some (some 3, [0]) := by decide +kernel
  obtain ⟨s, hs, hstate⟩ := Option.map_eq_some_iff.mp hexec
  obtain ⟨hfd, hclosed⟩ := Prod.mk.inj hstate
  exact ⟨s, hs, hfd, hclosed, connections_kept ⟨_, ⟨false, fun _ => false, rfl⟩, .of_exec hs⟩⟩

end Network

end OtiKiosk
