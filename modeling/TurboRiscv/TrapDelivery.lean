import TurboRiscv.Runs

/-!
# Trap Delivery

What `run` does with the trap slot. A trap is raised by a handler through `set_trap`, or
returned as an `Err` by `exec_cached_int` (a failed translation) or `exec_one_by_one` (a failed
fetch); `run` stores it and drains it at once, to `handle_trap` in system mode and to
`handle_syscall` for a user-mode environment call, then polls for a signal and commits
`want_pc`.

## Main results

- `trap_discipline`: no handler runs while a trap is pending, a raised trap goes straight back
  to `run`, and `run` consumes exactly the pending trap;
- `fetchFault_mepc`: a failed fetch is delivered with `mepc = 0`, not the faulting `pc`;
- `ecall_reaches_syscall`: in a user-mode run whose handlers keep the privilege every `ecall`
  reaches the syscall bridge and execution goes on after it; `ecall_after_mret_panics`: an
  `mret` that lowers the privilege makes the next `ecall` a protection error;
- `signal_undone`: a signal delivered at a taken jump is undone by the commit of `want_pc`;
- `drain_keeps_reservation`: no drain clears the LR/SC reservation;
- `handleSyscall_a7_mod`: only the low 16 bits of `a7` choose the syscall;
- `handlerTrap_delivered`: a trap a handler raises in system mode is delivered at the next step,
  by `handle_trap` at the `pc` of the raising instruction.
-/

namespace TurboRiscv

variable {P : Platform} {E : Env P} {sig : Signal} {s : RiscvInt P} {c c' : Config P}
  {ev : Option (Event P)}

/-! ## §1 The pending trap -/

/-- The trap `run` drains next: the `Err` an `exec_*` call returned, or else the slot. -/
def pendingTrap (c : Config P) : Option Trap :=
  match c.frame with
  | .ret _ (.error t) => some t
  | _ => c.hart.trap

theorem pendingTrap_ret (s : RiscvInt P) (fc : Bool) (r : Except Trap Unit) :
    pendingTrap ⟨s, .ret fc r⟩ = (s.storeResult fc r).trap := by
  rw [RiscvInt.storeResult_trap]
  cases r <;> rfl

/-- Between instructions nothing is pending. -/
theorem QuietInv.quiet (hI : QuietInv c) (hf : ∀ fc r, c.frame ≠ .ret fc r) : c.hart.Quiet := by
  obtain ⟨s, fr⟩ := c
  cases fr with
  | ret fc r => exact absurd rfl (hf fc r)
  | _ => exact hI

theorem QuietInv.pendingTrap_eq_none (hI : QuietInv c) (hf : ∀ fc r, c.frame ≠ .ret fc r) :
    pendingTrap c = none := by
  obtain ⟨s, fr⟩ := c
  cases fr with
  | ret fc r => exact absurd rfl (hf fc r)
  | _ => exact (hI.quiet hf).trap

/-- A handler runs only between instructions, on a quiet hart. -/
theorem Reachable.quiet_of_event (hr : Reachable E c) {e : Event P}
    (h : TurboRiscv.step E sig c = some (c', some e)) : c.hart.Quiet :=
  hr.inv.quiet.quiet fun fc r hc => by
    rcases step_event h with ⟨_, _, _, _, hf, -⟩ | ⟨_, _, _, hf, -⟩ <;> rw [hf] at hc <;> cases hc

/-- How `run` consumes the trap `trp` pending in `s`, leaving `s'`: `handle_trap` at the
    recorded `trap_pc` in system mode, discarding `want_pc`; `handle_syscall` for a user-mode
    environment call, followed by the signal poll and the commit of `want_pc`. -/
inductive Consumed (E : Env P) (sig : Signal) (s : RiscvInt P) (trp : Trap) (s' : RiscvInt P) :
    Prop
  | handleTrap {s1 : RiscvInt P} : s.usermode = false → s.handleTrap trp s.trapPc = some s1 →
      s' = { s1 with trapPc := 0, trap := none, wantPc := none, wfi := false, stopExec := false } →
      Consumed E sig s trp s'
  | handleSyscall {s1 s2 : RiscvInt P} : s.usermode = true →
      trp.ttype = .environmentCallFromMMode → s.handleSyscall E = some s1 →
      { s1 with stopExec := false, trap := none }.deliverSignal E sig = some s2 →
      RiscvInt.commitWantPc s2 = some s' → Consumed E sig s trp s'

/-- The step back in `run`: it drains the pending trap, if any, and nothing else. -/
theorem step_ret_eq_some {fc : Bool} {r : Except Trap Unit}
    (h : step E sig ⟨s, .ret fc r⟩ = some (c', ev)) :
    c'.frame = .run ∧ ev = none ∧ c'.hart.Quiet ∧
    (∀ trp, pendingTrap ⟨s, .ret fc r⟩ = some trp →
      Consumed E sig (s.storeResult fc r) trp c'.hart) ∧
    (pendingTrap ⟨s, .ret fc r⟩ = none → ∃ s2,
      (s.storeResult fc r).deliverSignal E sig = some s2 ∧
      RiscvInt.commitWantPc s2 = some c'.hart) := by
  simp only [step, Option.map_eq_some', Prod.mk.injEq] at h
  obtain ⟨s', h, rfl, rfl⟩ := h
  refine ⟨rfl, rfl, (RiscvInt.drain_frame h).quiet, fun trp ht => ?_, fun ht => ?_⟩ <;>
    rw [pendingTrap_ret] at ht <;>
    rcases RiscvInt.drain_eq_some h with ⟨t, s1, ht', hu, h1, rfl⟩ |
      ⟨t, s1, s2, ht', hu, he, h1, h2, h3⟩ | ⟨s2, ht', h2, h3⟩
  · cases ht.symm.trans ht'
    exact .handleTrap hu h1 rfl
  · cases ht.symm.trans ht'
    exact .handleSyscall hu he h1 h2 h3
  · cases ht.symm.trans ht'
  · cases ht.symm.trans ht'
  · cases ht.symm.trans ht'
  · exact ⟨s2, h2, h3⟩

/-- What one step does with the trap slot. -/
structure TrapDiscipline (E : Env P) (sig : Signal) (c c' : Config P)
    (ev : Option (Event P)) : Prop where
  /-- No handler is invoked while a trap is pending. -/
  handler_quiet : ∀ e ∈ ev, e.pre.trap = none
  /-- While an `exec_*` call runs nothing is pending, and a trap it raises sends control
      straight back to `run`: no trap is raised over another. -/
  raise : (∀ fc r, c.frame ≠ .ret fc r) →
    pendingTrap c = none ∧ (pendingTrap c' ≠ none → ∃ fc r, c'.frame = .ret fc r)
  /-- Back in `run`, the pending trap is consumed, and with none pending nothing is. -/
  consume : ∀ fc r, c.frame = .ret fc r → c'.frame = .run ∧ pendingTrap c' = none ∧
    (∀ trp, pendingTrap c = some trp → Consumed E sig (c.hart.storeResult fc r) trp c'.hart) ∧
    (pendingTrap c = none → ∃ s2, (c.hart.storeResult fc r).deliverSignal E sig = some s2 ∧
      RiscvInt.commitWantPc s2 = some c'.hart)

/-- **Pending traps are precise and consumed exactly once.** At every step of every run: no
    handler runs while a trap is pending; a trap raised by a handler or returned as an `Err` sends
    control straight back to `run`, so none is overwritten; and there `run` consumes exactly the
    pending trap (by `handle_trap` in system mode, resuming at the `pc` it computed with `want_pc`
    discarded; by `handle_syscall` for a user-mode `ecall`) and leaves none pending. -/
theorem trap_discipline (hr : Reachable E c) (h : step E sig c = some (c', ev)) :
    TrapDiscipline E sig c c' ev := by
  have hI := hr.inv.quiet
  have hI' := (hr.step _ h).inv.quiet
  obtain ⟨s, fr⟩ := c
  by_cases hf : ∀ fc r, fr ≠ .ret fc r
  · refine ⟨fun e he => ?_, fun _ => ⟨hI.pendingTrap_eq_none hf, fun hp => ?_⟩,
      fun fc r hr => absurd hr (hf fc r)⟩
    · cases he
      rw [step_event_pre h]
      exact (hr.quiet_of_event h).trap
    · by_contra hn
      exact hp (hI'.pendingTrap_eq_none fun fc r hc => hn ⟨fc, r, hc⟩)
  · push_neg at hf
    obtain ⟨fc, r, rfl⟩ := hf
    obtain ⟨hrun, rfl, hq, hc, hn⟩ := step_ret_eq_some h
    refine ⟨fun e he => (by cases he), fun hf => absurd rfl (hf fc r), ?_⟩
    rintro fc r ⟨⟩
    obtain ⟨s', fr'⟩ := c'
    cases hrun
    exact ⟨rfl, hq.trap, hc, hn⟩

/-! ## §2 The `pc` a trap is delivered at -/

/-- In system mode `trap_pc` is zero whenever no trap is pending: only `set_trap` writes it, and
    `run` resets it when it delivers the trap. -/
theorem Reachable.trapPc_eq_zero (hr : Reachable E c) :
    c.hart.usermode = false → c.hart.trap = none → c.hart.trapPc = 0 := by
  induction hr with
  | boot usermode => intros; cases usermode <;> rfl
  | @step c c' _ sig _ hs ih =>
    intro hu ht
    have hu0 : c.hart.usermode = false := (step_mode hs).1 ▸ hu
    rcases step_hart hs with h | h | h | h | ⟨physpc, r, s1, -, hb, h⟩ | ⟨b, z, i, -, h⟩ |
      ⟨b, z, i, st, h⟩ | ⟨fc, r, h⟩
    iterate 4 rw [h] at ht ⊢; exact ih hu0 ht
    · rw [h, (RiscvInt.buildExec_spec E hb).2.1] at ht ⊢; exact ih hu0 ht
    · obtain ⟨-, h⟩ := RiscvInt.finishInstr_eq_some.mp h
      rw [h] at ht ⊢
      rcases RiscvInt.execHandler_trap { c.hart with isCompressed := b } z with
        ⟨-, h1, h2⟩ | ⟨t, -, h1, -⟩
      · exact h2.trans (ih hu0 (h1.symm.trans ht))
      · cases h1.symm.trans ht
    · obtain ⟨-, h⟩ := RiscvInt.finishInstr_eq_some.mp h
      rw [h] at ht ⊢; exact ih hu0 ht
    · rcases RiscvInt.drain_eq_some h with ⟨t, s1, -, -, -, h'⟩ | ⟨t, s1, s2, -, hu1, -⟩ |
        ⟨s2, ht', h2, h3⟩
      · rw [h']
      · simp [hu0] at hu1
      · obtain ⟨-, h'⟩ := RiscvInt.commitWantPc_eq_some h3
        obtain ⟨regs, mem, pc, rfl⟩ := RiscvInt.deliverSignal_eq_some h2
        rw [h']
        have : c.hart.trap = none := by
          rw [RiscvInt.storeResult_trap] at ht'
          cases r
          · cases ht'
          · exact ht'
        simpa using ih hu0 this

/-- In system mode a trap returned as an `Err`, a failed fetch or translation, is delivered as
    raised at `pc` zero, whatever `pc` raised it: the `Err` paths never write `trap_pc`. -/
theorem errTrap_trappedPc_zero (hr : Reachable E c) (hu : c.hart.usermode = false) {fc : Bool}
    {t : Trap} (hf : c.frame = .ret fc (.error t)) (h : step E sig c = some (c', ev)) :
    ∃ s1, (c.hart.storeResult fc (.error t)).handleTrap t 0 = some s1 ∧
      c'.hart =
        { s1 with trapPc := 0, trap := none, wantPc := none, wfi := false, stopExec := false } := by
  obtain ⟨s, fr⟩ := c
  cases hf
  have hq : s.Quiet := hr.inv.quiet
  obtain ⟨-, -, -, hc, -⟩ := step_ret_eq_some h
  cases hc t rfl with
  | handleTrap _ h1 h' =>
    rw [RiscvInt.storeResult_trapPc, hr.trapPc_eq_zero hu hq.trap] at h1
    exact ⟨_, h1, h'⟩
  | handleSyscall hu' =>
    rw [RiscvInt.storeResult_usermode] at hu'
    exact absurd (hu'.symm.trans hu) (by decide)

/-- Guest memory with nothing mapped. -/
def unmapped : ToyMem := ⟨fun _ => none, 0⟩

/-- A system-mode hart with the cache off, entered at the unmapped `0x1000`. -/
def fetchFaultBoot : Config toy := boot false .x64 unmapped () 0 0x1000 false

/-- The fetch at `0x1000` faults, and `handle_trap` records `mepc = 0`, with `mtval = 0x1000`
    and `mcause = 1`. -/
theorem fetchFault_mepc :
    (exec (toyEnv identityWalk) [none, none, none] fetchFaultBoot).map (fun r =>
      (r.1.hart.csr csrMepcAddress, r.1.hart.csr csrMtvalAddress, r.1.hart.csr csrMcauseAddress)) =
      some (0, 0x1000, 1) := by
  decide

/-- `run` back from the faulting fetch. -/
def fetchFault : Config toy :=
  ⟨fetchFaultBoot.hart, .ret false (.error ⟨.instructionAccessFault, 0x1000⟩)⟩

theorem fetchFault_reachable : Reachable (toyEnv identityWalk) fetchFault :=
  .step none (.step none (.boot false .x64 unmapped () 0 0x1000 false) (by rfl)) (by rfl)

theorem trap_discipline_fetchFault : ∃ c' ev,
    Reachable (toyEnv identityWalk) fetchFault ∧
    step (toyEnv identityWalk) none fetchFault = some (c', ev) ∧
    TrapDiscipline (toyEnv identityWalk) none fetchFault c' ev := by
  obtain ⟨c', ev, hs⟩ : ∃ c' ev, step (toyEnv identityWalk) none fetchFault = some (c', ev) :=
    ⟨_, _, rfl⟩
  exact ⟨c', ev, fetchFault_reachable, hs, trap_discipline fetchFault_reachable hs⟩

/-! ## §3 User-mode environment calls -/

/-- The drain of a user-mode environment call with no `wfi` pending: `handle_syscall`, then the
    signal poll and the commit of `want_pc`; it panics only where `handle_syscall` or the signal
    poll does. -/
theorem drain_syscall (hu : s.usermode = true)
    (ht : s.trap = some ⟨.environmentCallFromMMode, 0⟩) (hw : s.wfi = false) :
    s.drain E sig = (s.handleSyscall E).bind fun s1 =>
      (({ s1 with stopExec := false, trap := none } : RiscvInt P).deliverSignal E sig).map fun s2 =>
        { s2 with pc := s2.wantPc.getD s2.pc, wantPc := none, stopExec := false } := by
  unfold RiscvInt.drain
  rw [ht]
  dsimp only
  rw [if_pos hu, if_pos rfl]
  cases h1 : s.handleSyscall E with
  | none => rfl
  | some s1 =>
    obtain ⟨ume, mem, regs, -, rfl⟩ := RiscvInt.handleSyscall_eq_some h1
    have hbind : ∀ o : Option (RiscvInt P), (∀ s2 ∈ o, s2.wfi = false) →
        o.bind RiscvInt.commitWantPc = o.map fun s2 =>
          { s2 with pc := s2.wantPc.getD s2.pc, wantPc := none, stopExec := false } := by
      rintro (_ | s2) h
      · rfl
      · exact RiscvInt.commitWantPc_of_wfi (h s2 rfl)
    refine hbind _ fun s2 h2 => ?_
    obtain ⟨regs', mem', pc', rfl⟩ := RiscvInt.deliverSignal_eq_some h2
    exact hw

/-- **User-mode `ecall`s reach the syscall bridge.** In every user-mode run whose handlers keep
    the privilege, the privilege stays machine, so every `ecall`, cached or not and at any `pc`,
    leaves an `EnvironmentCallFromMMode` trap pending and returns to `run`; the next step panics
    only if `handle_syscall` or the signal poll does, and otherwise consumes the trap through
    `handle_syscall`, leaving no trap and `stop_exec` clear, and with no signal pending execution
    goes on at the `ecall`'s `pc + 4`. -/
theorem ecall_reaches_syscall
    (hd16 : ∀ lo d, E.decoder16 lo = some d → d.instr.func ≠ ecall)
    {xlen : Xlen} {mem : P.Mem} {ume : P.Ume} {sp pc : U64} {cacheEnabled : Bool}
    {sigs : List Signal} {evs : List (Event P)}
    (hx : exec E sigs (boot true xlen mem ume sp pc cacheEnabled) = some (c, evs))
    (hkeep : ∀ e ∈ evs, e.post.prvmode = e.pre.prvmode) {e : Event P}
    (h : step E sig c = some (c', some e)) (hf : e.func = ecall) :
    c.hart.prvmode = .machine ∧ c'.hart.trap = some ⟨.environmentCallFromMMode, 0⟩ ∧
    ∃ fc, c'.frame = .ret fc (.ok ()) ∧ ∀ sig',
      (step E sig' c' = none ↔
        (c'.hart.storeResult fc (.ok ())).handleSyscall E = none ∨ sig' = some none) ∧
      ∀ c'' ev', step E sig' c' = some (c'', ev') →
        Consumed E sig' (c'.hart.storeResult fc (.ok ())) ⟨.environmentCallFromMMode, 0⟩
          c''.hart ∧
        c''.frame = .run ∧ c''.hart.trap = none ∧ c''.hart.stopExec = false ∧
        (sig' = none → c''.hart.pc = e.pre.pc + 4) := by
  have hr : Reachable E c := (Reachable.boot ..).exec hx
  obtain ⟨hu, hm⟩ : c.hart.usermode = true ∧ c.hart.prvmode = .machine := exec_prvmode rfl hx hkeep
  obtain ⟨cc, hat, hcc⟩ := event_instrAt hr h
  obtain ⟨z, fc, hfz, -, hpost, hret⟩ := event_post hr h
  have hpre := step_event_pre h
  have hq : e.pre.Quiet := by
    have hq := hr.quiet_of_event h
    rw [hpre]
    exact ⟨hq.trap, hq.wantPc, hq.wfi⟩
  have hpu : e.pre.usermode = true := by rw [hpre]; exact hu
  have hpm : e.pre.prvmode = .machine := by rw [hpre]; exact hm
  have h4 : e.pre.isCompressed = false := hcc.trans (hat.eq_false_of_decoder16 hd16 hf)
  rw [RiscvInt.execHandler_ecall e.pre z (hfz.symm.trans hf), h4] at hpost
  obtain ⟨-, hpost⟩ := RiscvInt.finishInstr_eq_some.mp hpost
  obtain rfl := hret (by rw [hpost])
  set S := e.post.storeResult fc (.ok ()) with hS
  have hSu : S.usermode = true := by simp [hS, hpost, hpu]
  have hSt : S.trap = some ⟨.environmentCallFromMMode, 0⟩ := by
    simp [hS, hpost, RiscvInt.storeResult_trap, hpm, envCallFrom]
  have hSw : S.wfi = false := by simp [hS, hpost, hq.wfi]
  refine ⟨hm, by simp [hpost, hpm, envCallFrom], fc, rfl,
    fun sig' => ⟨?_, fun c'' ev' hs => ?_⟩⟩
  · show (S.drain E sig').map _ = none ↔ _
    rw [drain_syscall hSu hSt hSw]
    cases S.handleSyscall E <;> simp
  · change (S.drain E sig').map _ = _ at hs
    rw [drain_syscall hSu hSt hSw, Option.map_eq_some'] at hs
    obtain ⟨s', hs', hc''⟩ := hs
    cases hc''
    obtain ⟨s1, h1, hm'⟩ := Option.bind_eq_some.mp hs'
    obtain ⟨s2, h2, rfl⟩ := Option.map_eq_some'.mp hm'
    obtain ⟨ume, mem, regs, -, hs1⟩ := RiscvInt.handleSyscall_eq_some h1
    obtain ⟨regs', mem', pc', hs2⟩ := RiscvInt.deliverSignal_eq_some h2
    have hw2 : s2.wfi = false := by rw [hs2, hs1]; exact hSw
    refine ⟨.handleSyscall hSu rfl h1 h2 (RiscvInt.commitWantPc_of_wfi hw2), rfl, by simp [hs2],
      rfl, fun hn => ?_⟩
    subst hn
    rw [RiscvInt.deliverSignal_none, Option.some.injEq] at h2
    subst h2
    simp [hs1, hS, hpost, hq.wantPc, incOf]

/-- A user-mode hart with the cache off, about to fetch `ecall` at `0x1000`. -/
def ecallFetch : Config toy :=
  ⟨(boot true .x64 (toyMem 0x1000 [0x00000073]) () 0 0x1000 false).hart, .oneByOne false⟩

theorem ecall_reaches_syscall_ecallFetch : ∃ c' e,
    exec (toyEnv identityWalk) [none] (boot true .x64 (toyMem 0x1000 [0x00000073]) () 0 0x1000 false) =
      some (ecallFetch, []) ∧
    step (toyEnv identityWalk) none ecallFetch = some (c', some e) ∧ e.func = ecall ∧
    ecallFetch.hart.prvmode = .machine ∧ c'.hart.trap = some ⟨.environmentCallFromMMode, 0⟩ ∧
    ∃ fc, c'.frame = .ret fc (.ok ()) ∧ ∀ sig',
      (step (toyEnv identityWalk) sig' c' = none ↔
        (c'.hart.storeResult fc (.ok ())).handleSyscall (toyEnv identityWalk) = none ∨
          sig' = some none) ∧
      ∀ c'' ev', step (toyEnv identityWalk) sig' c' = some (c'', ev') →
        Consumed (toyEnv identityWalk) sig' (c'.hart.storeResult fc (.ok ()))
          ⟨.environmentCallFromMMode, 0⟩ c''.hart ∧
        c''.frame = .run ∧ c''.hart.trap = none ∧ c''.hart.stopExec = false ∧
        (sig' = none → c''.hart.pc = e.pre.pc + 4) := by
  obtain ⟨c', e, hs, hf⟩ : ∃ c' e, step (toyEnv identityWalk) none ecallFetch = some (c', some e) ∧
      e.func = ecall := ⟨_, _, rfl, rfl⟩
  have hx : exec (toyEnv identityWalk) [none]
      (boot true .x64 (toyMem 0x1000 [0x00000073]) () 0 0x1000 false) = some (ecallFetch, []) := rfl
  exact ⟨c', e, hx, hs, hf,
    ecall_reaches_syscall (toyEnv_decoder16_ne_ecall _) hx (fun _ he => by cases he) hs hf⟩

/-- A user-mode hart with the cache off, entered at `mret` at `4`, with `ecall` at `0`. -/
def mretBoot : Config toy := boot true .x64 (toyMem 0 [0x00000073, 0x30200073]) () 0 4 false

/-- In user mode `mret` lowers the privilege to user (`mstatus.MPP` is zero) and jumps to
    `mepc = 0`; the `ecall` there raises `EnvironmentCallFromUMode`, which `run` does not hand
    to `handle_syscall`: it panics with `Protection error`. -/
theorem ecall_after_mret_panics :
    (exec (toyEnv identityWalk) [none, none, none, none, none] mretBoot).map
      (fun r => (r.2.map fun e => e.pre.pc, r.1.hart.prvmode, pendingTrap r.1)) =
      some ([4, 0], .user, some ⟨.environmentCallFromUMode, 0⟩) ∧
    exec (toyEnv identityWalk) [none, none, none, none, none, none] mretBoot = none :=
  ⟨by decide, Option.isNone_iff_eq_none.mp (by decide)⟩

/-! ## §4 Signals at a taken jump -/

/-- At the end of `run`'s loop, with no trap pending, a signal and a control transfer to `t`
    pending together: `setup_rt_frame` builds the frame from the hart as it is, `pc` the
    fall-through, and the commit of `want_pc` then overwrites the handler's entry with `t`. -/
theorem signal_overridden_by_wantPc {fc : Bool} {n : Nat} {t : U64}
    (h : step E (some (some n)) ⟨s, .ret fc (.ok ())⟩ = some (c', ev)) (ht : s.trap = none)
    (hw : s.wantPc = some t) :
    c'.hart.pc = t ∧
      c'.hart.memsource = (E.setupRtFrame (s.storeResult fc (.ok ())).arch n).memsource := by
  obtain ⟨-, -, -, -, hn⟩ := step_ret_eq_some h
  obtain ⟨s2, h2, h3⟩ := hn (by rw [pendingTrap_ret, RiscvInt.storeResult_trap]; exact ht)
  cases h2
  obtain ⟨-, h'⟩ := RiscvInt.commitWantPc_eq_some h3
  rw [h']
  exact ⟨by simp [hw], rfl⟩

/-- A user-mode hart with the cache off, entered at the taken jump `0x1000: jal x0, 8`. -/
def jumpBoot : Config toy := boot true .x64 (toyMem 0x1000 [0x0080006f]) () 0 0x1000 false

/-- With signal 10 pending when the jump ends the block, the frame records the fall-through
    `0x1004`, and the next instruction executed is the jump target's, at `0x1008`, not the
    handler's at `0x8000`. -/
theorem signal_undone :
    (exec (toyEnv identityWalk) [none, none, some (some 10), none, none] jumpBoot).map
      (fun r => (r.2.map fun e => e.pre.pc, r.1.hart.memsource.savedPc)) =
      some (([0x1000, 0x1008] : List U64), (0x1004 : U64)) := by
  decide

/-! ## §5 The LR/SC reservation across a trap -/

/-- **No drain touches the reservation.** At every return to `run`, whatever is drained (a trap
    by `handle_trap` or `handle_syscall`, or nothing), `is_reservation`, `res_val` and `res_len`
    are as before. -/
theorem drain_keeps_reservation {fc : Bool} {r : Except Trap Unit} (hf : c.frame = .ret fc r)
    (h : step E sig c = some (c', ev)) :
    c'.hart.isReservation = c.hart.isReservation ∧ c'.hart.resVal = c.hart.resVal ∧
      c'.hart.resLen = c.hart.resLen := by
  obtain ⟨s, fr⟩ := c
  cases hf
  simp only [step, Option.map_eq_some', Prod.mk.injEq] at h
  obtain ⟨s', h, rfl, -⟩ := h
  simpa using (RiscvInt.drain_frame h).reservation

/-- A system-mode hart with the cache off, entered at `lr.w` followed by `ecall`. -/
def lrEcallBoot : Config toy :=
  boot false .x64 (toyMem 0x1000 [0x1000202f, 0x00000073]) () 0 0x1000 false

theorem drain_keeps_reservation_lrEcall : ∃ c c' ev,
    Reachable (toyEnv identityWalk) c ∧ c.frame = .ret false (.ok ()) ∧
    pendingTrap c = some ⟨.environmentCallFromMMode, 0⟩ ∧ c.hart.isReservation = true ∧
    step (toyEnv identityWalk) none c = some (c', ev) ∧
    c'.hart.isReservation = c.hart.isReservation ∧ c'.hart.resVal = c.hart.resVal ∧
      c'.hart.resLen = c.hart.resLen := by
  obtain ⟨⟨c, evs⟩, hx, hc⟩ := Option.map_eq_some'.mp
    (show (exec (toyEnv identityWalk) [none, none, none] lrEcallBoot).map (fun r =>
      ((match r.1.frame with | .ret fc (.ok ()) => some fc | _ => none), pendingTrap r.1,
        r.1.hart.isReservation, (step (toyEnv identityWalk) none r.1).isSome)) =
      some (some false, some ⟨.environmentCallFromMMode, 0⟩, true, true) by decide)
  simp only [Prod.mk.injEq] at hc
  obtain ⟨hf, hp, hres, hs⟩ := hc
  obtain ⟨⟨c', ev⟩, hs⟩ := Option.isSome_iff_exists.mp hs
  have hf : c.frame = .ret false (.ok ()) := by
    split at hf
    · cases hf; assumption
    · cases hf
  exact ⟨c, c', ev, (Reachable.boot ..).exec hx, hf, hp, hres, hs, drain_keeps_reservation hf hs⟩

/-- The reservation `lr.w` takes survives the environment call that follows it. -/
theorem reservation_survives_trap :
    ¬ ∀ (c c' : Config toy) (ev : Option (Event toy)), Reachable (toyEnv identityWalk) c →
      pendingTrap c ≠ none → step (toyEnv identityWalk) none c = some (c', ev) →
      c'.hart.isReservation = false := by
  intro h
  obtain ⟨⟨c, evs⟩, hx, hc⟩ := Option.map_eq_some'.mp
    (show (exec (toyEnv identityWalk) [none, none, none] lrEcallBoot).map (fun r =>
      ((pendingTrap r.1).isSome,
        (step (toyEnv identityWalk) none r.1).map fun r' => r'.1.hart.isReservation)) =
      some (true, some true) by decide)
  simp only [Prod.mk.injEq] at hc
  obtain ⟨⟨c', ev⟩, hs, hres⟩ := Option.map_eq_some'.mp hc.2
  have hp : pendingTrap c ≠ none := fun hn => by simp [hn] at hc
  exact absurd ((h c c' ev ((Reachable.boot ..).exec hx) hp hs).symm.trans hres) (by decide)

/-! ## §6 The syscall number

`handle_syscall` passes `syscallnum as u16` to `riscv_translate_syscall`, so only the low 16
bits of `a7` choose the syscall. -/

/-- The low half of `a7 mod 2^16` is that of `a7`. -/
theorem setWidth_umod_twoPow16 (v : U64) : (v % 0x10000).setWidth 16 = v.setWidth 16 := by
  apply BitVec.eq_of_toNat_eq
  simp [BitVec.toNat_setWidth, BitVec.toNat_umod]

/-- For every table, runtime and hart, `handle_syscall` with `a7 = v` makes the `dispatch` call
    that `a7 = v mod 2^16` makes, and ends the same way; only `a7` tells the two harts apart. -/
theorem handleSyscall_a7_mod (E : Env P) (s : RiscvInt P) (v : U64) :
    ({ s with regs := Function.update s.regs 17 v } : RiscvInt P).handleSyscall E =
      (({ s with regs := Function.update s.regs 17 (v % 0x10000) } : RiscvInt P).handleSyscall
        E).map fun s' => { s' with regs := Function.update s'.regs 17 v } := by
  simp only [RiscvInt.handleSyscall, Function.update_same, setWidth_umod_twoPow16]
  rcases E.riscvTranslateSyscall (v.setWidth 16) with _ | systype
  · rfl
  · simp only [Function.update_apply, Fin.reduceEq, if_false]
    rcases E.dispatch s.userStruct s.memsource _ with _ | ⟨ume, mem, out⟩
    · rfl
    · simp only [Option.map_some']
      congr 2
      funext i
      cases out.ret2 <;> simp only [Function.update_apply] <;> split_ifs <;> simp_all

/-- `a7 = 0x10040`, a number no RISC-V table lists, is served as syscall 64 (`write`): for every
    table, runtime and hart the outcome is that of `a7 = 64`. -/
theorem syscall_number_aliased (E : Env P) (s : RiscvInt P) :
    ({ s with regs := Function.update s.regs 17 0x10040 } : RiscvInt P).handleSyscall E =
      (({ s with regs := Function.update s.regs 17 64 } : RiscvInt P).handleSyscall E).map
        fun s' => { s' with regs := Function.update s'.regs 17 0x10040 } :=
  handleSyscall_a7_mod E s 0x10040

/-! ## §7 A trap a handler raises

`set_trap` records the `pc` of the current instruction in `trap_pc` and sets `stop_exec`; the
loop then returns to `run`, which hands the trap and `trap_pc` to `handle_trap`. -/

/-- A handler invocation that leaves a trap pending on a quiet hart raised it: it recorded the
    instruction's `pc` and sent control back to `run`. -/
theorem step_event_raises (hq : c.hart.Quiet) {c1 : Config P} {e : Event P} {t : Trap}
    (h : step E sig c = some (c1, some e)) (ht : e.post.trap = some t) :
    e.post.trapPc = e.pre.pc ∧ ∃ fc, c1 = ⟨e.post, .ret fc (.ok ())⟩ := by
  obtain ⟨z, i, fc, fr, hpost, rfl⟩ : ∃ z i fc fr,
      (e.pre.execHandler z).finishInstr i = some e.post ∧
      c1 = ⟨e.post, if e.post.stopExec then .ret fc (.ok ()) else fr⟩ := by
    rcases step_event h with ⟨_, _, z, _, -, -, -, -, hpost, rfl⟩ |
      ⟨fc, _, d, -, -, -, -, -, -, -, hpost, rfl⟩
    exacts [⟨z, _, true, _, hpost, rfl⟩, ⟨d.instr, _, fc, _, hpost, rfl⟩]
  obtain ⟨-, hpost⟩ := RiscvInt.finishInstr_eq_some.mp hpost
  rcases RiscvInt.execHandler_trap e.pre z with ⟨-, h1, -⟩ | ⟨t', -, -, h2, h3⟩
  · rw [hpost, h1, step_event_pre h, hq.trap] at ht
    cases ht
  · have hs : e.post.stopExec = true := by rw [hpost]; exact h3
    exact ⟨by rw [hpost]; exact h2, fc, by rw [if_pos hs]⟩

/-- In system mode a pending trap is drained by `handle_trap` at `trap_pc` and nothing else. -/
theorem drain_of_system (hu : s.usermode = false) {t : Trap} (ht : s.trap = some t) :
    s.drain E sig = (s.handleTrap t s.trapPc).map fun s1 =>
      { s1 with trapPc := 0, trap := none, wantPc := none, wfi := false, stopExec := false } := by
  unfold RiscvInt.drain
  rw [ht]
  simp [hu]

/-- **A trap a handler raises is delivered precisely.** In every run in system mode, whatever the
    handler, the privilege and the execution path: when an instruction's handler raises a trap
    `t`, control returns to `run` with `t` pending, and the next step, with any signal, delivers
    `t` by `handle_trap` at the `pc` of that instruction, discarding `want_pc`; it panics exactly
    where `handle_trap`'s target overflows, and otherwise `sepc` (delegated, from user or
    supervisor privilege) or `mepc` (not delegated) is that `pc`. -/
theorem handlerTrap_delivered (hr : Reachable E c) (hu : c.hart.usermode = false) {c1 : Config P}
    {e : Event P} {t : Trap} (h : step E sig c = some (c1, some e)) (ht : e.post.trap = some t) :
    ∃ fc, c1 = ⟨e.post, .ret fc (.ok ())⟩ ∧ ∀ sig',
      (step E sig' c1 = none ↔ (e.post.storeResult fc (.ok ())).handleTrap t e.pre.pc = none) ∧
      ∀ c2 ev', step E sig' c1 = some (c2, ev') → ev' = none ∧ c2.frame = .run ∧
        ∃ s2, (e.post.storeResult fc (.ok ())).handleTrap t e.pre.pc = some s2 ∧
          c2.hart =
            { s2 with trapPc := 0, trap := none, wantPc := none, wfi := false, stopExec := false } ∧
          (Delegated (e.post.storeResult fc (.ok ())) t → c2.hart.csr csrSepcAddress = e.pre.pc) ∧
          (¬Delegated (e.post.storeResult fc (.ok ())) t →
            c2.hart.csr csrMepcAddress = e.pre.pc) := by
  obtain ⟨htp, fc, rfl⟩ := step_event_raises (hr.quiet_of_event h) h ht
  have hSu : (e.post.storeResult fc (.ok ())).usermode = false := by
    rw [RiscvInt.storeResult_usermode, (step_mode h).1, hu]
  have hSt : (e.post.storeResult fc (.ok ())).trap = some t := by
    rw [RiscvInt.storeResult_trap]; exact ht
  refine ⟨fc, rfl, fun sig' => ⟨?_, fun c2 ev' h' => ?_⟩⟩
  · show ((e.post.storeResult fc (.ok ())).drain E sig').map _ = none ↔ _
    rw [drain_of_system hSu hSt, RiscvInt.storeResult_trapPc, htp]
    simp
  obtain ⟨hrun, rfl, -, hc, -⟩ := step_ret_eq_some h'
  cases hc t (by rw [pendingTrap_ret]; exact hSt) with
  | handleTrap _ h1 h2 =>
    rw [RiscvInt.storeResult_trapPc, htp] at h1
    refine ⟨rfl, hrun, _, h1, h2, fun hd => ?_, fun hd => ?_⟩ <;> rw [h2]
    · exact (handleTrap_delegated hd h1).epc_eq
    · exact (handleTrap_not_delegated hd h1).epc_eq
  | handleSyscall hu' => exact absurd (hu'.symm.trans hSu) (by decide)

/-- A system-mode hart with the cache off, entered at `4` over `csrrwi x0, medeleg, 8` and
    `mret`, with `ebreak` at `0`: it delegates breakpoints, drops to user privilege and breaks. -/
def delegBoot : Config toy :=
  boot false .x64 (toyMem 0 [0x00100073, 0x30245073, 0x30200073]) () 0 4 false

/-- After seven steps of `delegBoot` the `ebreak` at `0` raises a breakpoint from user privilege,
    which `medeleg` delegates to supervisor mode. -/
theorem handlerTrap_delivered_delegated : ∃ c c1 e,
    Reachable (toyEnv identityWalk) c ∧ c.hart.usermode = false ∧
    step (toyEnv identityWalk) none c = some (c1, some e) ∧ e.post.trap = some ⟨.breakpoint, 0⟩ ∧
    (∀ fc, Delegated (e.post.storeResult fc (.ok ())) ⟨.breakpoint, 0⟩) ∧
    ∃ fc, c1 = ⟨e.post, .ret fc (.ok ())⟩ ∧ ∀ sig',
      (step (toyEnv identityWalk) sig' c1 = none ↔
        (e.post.storeResult fc (.ok ())).handleTrap ⟨.breakpoint, 0⟩ e.pre.pc = none) ∧
      ∀ c2 ev', step (toyEnv identityWalk) sig' c1 = some (c2, ev') → ev' = none ∧
        c2.frame = .run ∧
        ∃ s2, (e.post.storeResult fc (.ok ())).handleTrap ⟨.breakpoint, 0⟩ e.pre.pc = some s2 ∧
          c2.hart =
            { s2 with trapPc := 0, trap := none, wantPc := none, wfi := false, stopExec := false } ∧
          (Delegated (e.post.storeResult fc (.ok ())) ⟨.breakpoint, 0⟩ →
            c2.hart.csr csrSepcAddress = e.pre.pc) ∧
          (¬Delegated (e.post.storeResult fc (.ok ())) ⟨.breakpoint, 0⟩ →
            c2.hart.csr csrMepcAddress = e.pre.pc) := by
  obtain ⟨⟨c, evs⟩, hx, hc⟩ := Option.map_eq_some'.mp
    (show (exec (toyEnv identityWalk) [none, none, none, none, none, none, none] delegBoot).map
      (fun r => (r.1.hart.usermode, (step (toyEnv identityWalk) none r.1).bind fun r' =>
        r'.2.map fun e => (e.post.trap, decide (Delegated e.post ⟨.breakpoint, 0⟩)))) =
      some (false, some (some ⟨.breakpoint, 0⟩, true)) by decide)
  simp only [Prod.mk.injEq] at hc
  obtain ⟨hu, hb⟩ := hc
  obtain ⟨⟨c1, ev⟩, hs, hev⟩ := Option.bind_eq_some.mp hb
  obtain ⟨e, rfl, he⟩ := Option.map_eq_some'.mp hev
  simp only [Prod.mk.injEq, decide_eq_true_eq] at he
  have hr : Reachable (toyEnv identityWalk) c := (Reachable.boot ..).exec hx
  refine ⟨c, c1, e, hr, hu, hs, he.1, fun fc => ?_, handlerTrap_delivered hr hu hs he.1⟩
  simpa only [Delegated, RiscvInt.storeResult_prvmode, RiscvInt.storeResult_xlen,
    RiscvInt.storeResult_csr] using he.2

end TurboRiscv
