import MySystem.Trap.Nesting
import MySystem.Trap.SystemCall
import MySystem.Trap.Arguments

/-!
# System calls from C

The wrappers `_syscall0` to `_syscall3` of `unistd.h` put the number of a call
and its arguments into registers and execute `int $0x80`. Nothing in the
sources sets the gate of that vector; what is stated here holds once it leads
to `sys_call`.
-/

namespace MySystem

open Machine

/-! ## Numbers and handlers -/

/-- The functions of `kernel/sys.c`, with `sys_fork` and `sys_execve` of `sys_call.asm`. -/
inductive SysCall where
  | sys_setup
  | sys_exit
  | sys_fork
  | sys_read
  | sys_write
  | sys_open
  | sys_close
  | sys_waitpid
  | sys_creat
  | sys_link
  | sys_unlink
  | sys_execve
  | sys_chdir
  | sys_time
  | sys_mknod
  | sys_chmod
  | sys_chown
  | sys_break
  | sys_stat
  | sys_lseek
  | sys_getpid
  | sys_mount
  | sys_umount
  | sys_setuid
  | sys_getuid
  | sys_stime
  | sys_ptrace
  | sys_alarm
  | sys_fstat
  | sys_pause
  | sys_utime
  | sys_stty
  | sys_gtty
  | sys_access
  | sys_nice
  | sys_ftime
  | sys_sync
  | sys_kill
  | sys_rename
  | sys_mkdir
  | sys_rmdir
  | sys_dup
  | sys_pipe
  | sys_times
  | sys_prof
  | sys_brk
  | sys_setgid
  | sys_getgid
  | sys_signal
  | sys_geteuid
  | sys_getegid
  | sys_acct
  | sys_phys
  | sys_lock
  | sys_ioctl
  | sys_fcntl
  | sys_mpx
  | sys_setpgid
  | sys_ulimit
  | sys_uname
  | sys_umask
  | sys_chroot
  | sys_ustat
  | sys_dup2
  | sys_getppid
  | sys_getpgrp
  | sys_setsid
  | sys_sigaction
  | sys_sgetmask
  | sys_ssetmask
  | sys_setreuid
  | sys_setregid
  | sys_sigsuspend
  | sys_sigpending
  | sys_sethostname
  | sys_setrlimit
  | sys_getrlimit
  | sys_getrusage
  | sys_gettimeofday
  | sys_settimeofday
  | sys_getgroups
  | sys_setgroups
  | sys_select
  | sys_symlink
  | sys_lstat
  | sys_readlink
  | sys_uselib
  deriving DecidableEq

/-- The numbers `unistd.h` defines. -/
def NR : SysCall → Nat
  | .sys_setup => 0
  | .sys_exit => 1
  | .sys_fork => 2
  | .sys_read => 3
  | .sys_write => 4
  | .sys_open => 5
  | .sys_close => 6
  | .sys_waitpid => 7
  | .sys_creat => 8
  | .sys_link => 9
  | .sys_unlink => 10
  | .sys_execve => 11
  | .sys_chdir => 12
  | .sys_time => 13
  | .sys_mknod => 14
  | .sys_chmod => 15
  | .sys_chown => 16
  | .sys_break => 17
  | .sys_stat => 18
  | .sys_lseek => 19
  | .sys_getpid => 20
  | .sys_mount => 21
  | .sys_umount => 22
  | .sys_setuid => 23
  | .sys_getuid => 24
  | .sys_stime => 25
  | .sys_ptrace => 26
  | .sys_alarm => 27
  | .sys_fstat => 28
  | .sys_pause => 29
  | .sys_utime => 30
  | .sys_stty => 31
  | .sys_gtty => 32
  | .sys_access => 33
  | .sys_nice => 34
  | .sys_ftime => 35
  | .sys_sync => 36
  | .sys_kill => 37
  | .sys_rename => 38
  | .sys_mkdir => 39
  | .sys_rmdir => 40
  | .sys_dup => 41
  | .sys_pipe => 42
  | .sys_times => 43
  | .sys_prof => 44
  | .sys_brk => 45
  | .sys_setgid => 46
  | .sys_getgid => 47
  | .sys_signal => 48
  | .sys_geteuid => 49
  | .sys_getegid => 50
  | .sys_acct => 51
  | .sys_phys => 52
  | .sys_lock => 53
  | .sys_ioctl => 54
  | .sys_fcntl => 55
  | .sys_mpx => 56
  | .sys_setpgid => 57
  | .sys_ulimit => 58
  | .sys_uname => 59
  | .sys_umask => 60
  | .sys_chroot => 61
  | .sys_ustat => 62
  | .sys_dup2 => 63
  | .sys_getppid => 64
  | .sys_getpgrp => 65
  | .sys_setsid => 66
  | .sys_sigaction => 67
  | .sys_sgetmask => 68
  | .sys_ssetmask => 69
  | .sys_setreuid => 70
  | .sys_setregid => 71
  | .sys_sigsuspend => 72
  | .sys_sigpending => 73
  | .sys_sethostname => 74
  | .sys_setrlimit => 75
  | .sys_getrlimit => 76
  | .sys_getrusage => 77
  | .sys_gettimeofday => 78
  | .sys_settimeofday => 79
  | .sys_getgroups => 80
  | .sys_setgroups => 81
  | .sys_select => 82
  | .sys_symlink => 83
  | .sys_lstat => 84
  | .sys_readlink => 85
  | .sys_uselib => 86

def sys_call_table : List SysCall :=
  [.sys_setup, .sys_exit, .sys_fork, .sys_read, .sys_write, .sys_open, .sys_close, .sys_waitpid,
    .sys_creat, .sys_link, .sys_unlink, .sys_execve, .sys_chdir, .sys_time, .sys_mknod, .sys_chmod,
    .sys_chown, .sys_break, .sys_stat, .sys_lseek, .sys_getpid, .sys_mount, .sys_umount,
    .sys_setuid, .sys_getuid, .sys_stime, .sys_ptrace, .sys_alarm, .sys_fstat, .sys_pause,
    .sys_utime, .sys_stty, .sys_gtty, .sys_access, .sys_nice, .sys_ftime, .sys_sync, .sys_kill,
    .sys_rename, .sys_mkdir, .sys_rmdir, .sys_dup, .sys_pipe, .sys_times, .sys_prof, .sys_brk,
    .sys_setgid, .sys_getgid, .sys_signal, .sys_geteuid, .sys_getegid, .sys_acct, .sys_phys,
    .sys_lock, .sys_ioctl, .sys_fcntl, .sys_mpx, .sys_setpgid, .sys_ulimit, .sys_uname, .sys_umask,
    .sys_chroot, .sys_ustat, .sys_dup2, .sys_getppid, .sys_getpgrp, .sys_setsid, .sys_sigaction,
    .sys_sgetmask, .sys_ssetmask, .sys_setreuid, .sys_setregid, .sys_sigsuspend, .sys_sigpending,
    .sys_sethostname, .sys_setrlimit, .sys_getrlimit, .sys_getrusage, .sys_gettimeofday,
    .sys_settimeofday, .sys_getgroups, .sys_setgroups, .sys_select, .sys_symlink, .sys_lstat,
    .sys_readlink, .sys_uselib]

def NR_syscalls : Nat := sys_call_table.length

/-- Every number leads to the function of its name. -/
theorem sys_call_table_getElem? (x : SysCall) : sys_call_table[NR x]? = some x := by
  cases x <;> rfl

theorem NR_lt (x : SysCall) : NR x < NR_syscalls :=
  (List.getElem?_eq_some_iff.mp (sys_call_table_getElem? x)).1

/-! ## The wrappers -/

/-- A wrapper of any of the four kinds executes `int $0x80` in `s`. -/
structure AtInt80 (x : SysCall) (args : List Word) (s : Cpu) : Prop where
  eax : s.eax = Word.of (NR x)
  args : args <+: [s.ebx, s.ecx, s.edx]

/-- What the wrapper returns, and `errno` then, for the result in `eax`. -/
def wrapperReturn (res errno : Word) : Word × Word :=
  if 0 ≤ res.toInt then (res, errno) else (-1, -res)

/-- The result of the call, from what the wrapper makes of it. -/
def callResult (r : Word × Word) : Word := if r.1 = -1 then -r.2 else r.1

theorem wrapperReturn_fails_iff (res errno : Word) :
    (wrapperReturn res errno).1 = -1 ↔ res.toInt < 0 := by
  rw [wrapperReturn]
  split
  · rename_i hpos
    refine ⟨fun h => ?_, fun h => absurd hpos (by omega)⟩
    change res = -1 at h
    rw [h] at hpos
    exact absurd hpos (by decide)
  · exact ⟨fun _ => by omega, fun _ => rfl⟩

theorem callResult_wrapperReturn (res errno : Word) :
    callResult (wrapperReturn res errno) = res := by
  rw [callResult]
  by_cases hfails : res.toInt < 0
  · rw [if_pos ((wrapperReturn_fails_iff res errno).mpr hfails), wrapperReturn,
      if_neg (by omega)]
    exact BitVec.neg_neg
  · rw [if_neg (mt (wrapperReturn_fails_iff res errno).mp hfails), wrapperReturn,
      if_pos (by omega)]

/-! ## The call -/

/-- In memory, `sys_call_table` holds the addresses of the functions. -/
def TableIn (sys : System) (address : SysCall → Word) (m : Memory) : Prop :=
  ∀ i x, sys_call_table[i]? = some x → m.load32 (tableSlot sys (Word.of i)) = address x

/-- A function of the table is entered for a call made in `s`. -/
structure CallEntered (sys : System) (s : Cpu) (e : Cpu) : Prop where
  leaves : sys.Leaves (sys.interrupt s .sys_call none) (.called (some (tableSlot sys s.eax)) e)
  eax : e.eax = s.eax
  ebp : e.ebp = s.ebp
  esi : e.esi = s.esi
  edi : e.edi = s.edi
  framed : Cpu.Framed sys.stack s 0
    (sys.layout.addr .sys_call_return :: callWords s.toContext (sys.callSelectors s)) e
  eip : (tableSlot sys s.eax - s.base sys.stack).toNat + 4 ≤ 2 ^ 32 - 64 →
    e.eip = s.mem.load32 (tableSlot sys s.eax)

theorem sys_call_enters (sys : System) {s : Cpu} (hbelow : s.eax < sys.sym.NR_syscalls) :
    ∃ e, CallEntered sys s e := by
  obtain ⟨d, hd, hexec⟩ := sys_call_checks sys s
  rw [if_pos hbelow] at hexec
  have hframed := (hd.framed 0 (by simp [callWords])).pushes [sys.layout.addr .sys_call_return]
    (by simp [callWords])
  refine ⟨_, .called (interrupt_eip sys s .sys_call none) hexec, hd.eax, hd.ebp, hd.esi, hd.edi,
    hframed.congr rfl rfl rfl rfl, ?_⟩
  intro hoff
  have hagree := (hd.framed (2 ^ 32 - 64) (by simp [callWords])).agree
  exact hagree.load32_of_le hoff (by omega)

variable {sys : System} {own : Cpu → Cpu → Prop} {area : Area} {s e r : Cpu}

/-- The function stands below the saved registers and the processor's frame. -/
theorem depth_call (hs : Accommodates sys area s 0) (h : CallEntered sys s e) :
    area.depth e = 32 + 4 * s.frame.length := by
  have hlen := s.length_frame_le
  have hroom := hs.room
  have hsize := hs.size
  have hlt := area.size_lt
  have hesp : e.esp = s.base sys.stack - Word.of (32 + 4 * s.frame.length) := by
    have hframed : e.esp = s.frameAddress sys.stack - Word.of 32 := h.framed.esp
    rw [hframed, s.base_eq, ← Word.of_add_of]
    generalize Word.of (4 * s.frame.length) = above
    bv_omega
  have hof : (Word.of (32 + 4 * s.frame.length)).toNat = 32 + 4 * s.frame.length :=
    Word.toNat_of (by omega)
  rw [BitVec.toNat_sub] at hroom hsize
  rw [Area.depth, Area.height, hesp, BitVec.toNat_sub, BitVec.toNat_sub, hof]
  omega

theorem call_resumes (hs : Accommodates sys area s 0) (h : CallEntered sys s e)
    (hcdecl : area.Cdecl own e.eip) (hruns : Runs own area.Undisturbed e r)
    (hreturned : Returned e r) : Resumes sys s r r.eax := by
  have hframe := s.length_frame_le
  have hdepth := depth_call hs h
  have hsize := hs.size
  have hlt := area.size_lt
  have hheight : area.Room 0 e := by
    refine ⟨Nat.zero_le _, ?_⟩
    rw [Area.depth] at hdepth
    omega
  have hpreserves := hcdecl e r rfl hheight hruns hreturned
  have hstack := hpreserves.stack
  rw [hdepth, show 32 + 4 * s.frame.length - 4 = 0 + 4 * s.frame.length + 4 * 7 by omega]
    at hstack
  have hwords : Cpu.Framed sys.stack s 0 (callWords s.toContext (sys.callSelectors s)) r :=
    h.framed.returned hreturned (by simp [callWords]) hstack
  have heip : r.eip = sys.layout.addr .sys_call_return := hreturned.eip.trans h.framed.top_eq
  exact sys_call_return_resumes sys heip hwords (hpreserves.ebp.trans h.ebp)
    (hpreserves.esi.trans h.esi) (hpreserves.edi.trans h.edi)

/-- `sys_fork` and `sys_execve` are a `ret`, which leaves the number in `eax`. -/
theorem ret_call_resumes (h : CallEntered sys s e) {l : Label}
    (hl : l = .sys_fork ∨ l = .sys_execve) (heip : e.eip = sys.layout.addr l) :
    Resumes sys s e s.eax := by
  have hcode : entryCode sys.sym l = [.ret] := by
    obtain rfl | rfl := hl
    · rfl
    · rfl
  have hexec : (entries sys.sym).exec sys.layout l (entryCode sys.sym l) e =
      .goto { e.drop with eip := e.top } := by
    rw [hcode]
    rfl
  let r : Cpu := { e.drop with eip := e.top }
  have hwords : Cpu.Framed sys.stack s 0 (callWords s.toContext (sys.callSelectors s)) r :=
    h.framed.drop.congr rfl rfl rfl rfl
  have hr : r.eax = s.eax := h.eax
  have hresumes := sys_call_return_resumes sys (r := r) h.framed.top_eq hwords h.ebp h.esi h.edi
  rw [hr] at hresumes
  exact hresumes.goto heip hexec

/-- A wrapper's call enters the function of its name with the wrapper's arguments, and
when that returns, after exceptions nested to any depth, the wrapper goes on with
all its registers but `eax`, from which its caller can tell what the function
returned. `fork` and `execve` always succeed, with their own numbers. -/
theorem wrapper_calls (sys : System) (own : Cpu → Cpu → Prop) (area : Area)
    {address : SysCall → Word} (hhandlers : ∀ x, area.Cdecl own (sys.sym.handler x))
    (hfunctions : ∀ x, area.Cdecl own (address x))
    (hlinked : NR_syscalls ≤ sys.sym.NR_syscalls.toNat) {x : SysCall} {args : List Word} {s : Cpu}
    (hs : AtInt80 x args s) (htable : TableIn sys address s.mem)
    (hoff : (tableSlot sys s.eax - s.base sys.stack).toNat + 4 ≤ 2 ^ 32 - 64)
    (hbase : s.base sys.stack = area.top) (hroom : 64 ≤ area.size) :
    ∃ e, sys.Leaves (sys.interrupt s .sys_call none) (.called (some (tableSlot sys s.eax)) e) ∧
      e.eip = address x ∧ Receives e args ∧
      (∀ d r, Runs own (Nested sys own area d) e r → Returned e r →
        ∃ s', sys.Leaves r (.resumed (s.frameAddress sys.stack) s') ∧
          s'.toContext = { s.toContext with eax := r.eax } ∧
          ∀ errno, callResult (wrapperReturn s'.eax errno) = r.eax ∧
            ((wrapperReturn s'.eax errno).1 = -1 ↔ r.eax.toInt < 0)) ∧
      ∀ l, l = .sys_fork ∨ l = .sys_execve → address x = sys.layout.addr l →
        ∃ s', sys.Leaves e (.resumed (s.frameAddress sys.stack) s') ∧
          s'.toContext = s.toContext ∧
          ∀ errno, wrapperReturn s'.eax errno = (Word.of (NR x), errno) := by
  have hNR : NR x < 87 := NR_lt x
  have hnumber : (Word.of (NR x)).toNat = NR x := Word.toNat_of (by omega)
  have hbelow : s.eax < sys.sym.NR_syscalls := by
    rw [hs.eax, BitVec.lt_def, hnumber]
    exact Nat.lt_of_lt_of_le (NR_lt x) hlinked
  obtain ⟨e, he⟩ := sys_call_enters sys hbelow
  have heip : e.eip = address x := by
    rw [he.eip hoff, hs.eax]
    exact htable _ _ (sys_call_table_getElem? x)
  have hheight : (s.base sys.stack - area.bottom).toNat = area.size := by
    rw [hbase, Area.top, BitVec.add_comm, BitVec.add_sub_cancel, Word.toNat_of area.size_lt]
  have hstack : Accommodates sys area s 0 := ⟨hheight ▸ hroom, hheight⟩
  refine ⟨e, he.leaves, heip, ?_, ?_, ?_⟩
  · have hwords : Receives e ([s.ebx, s.ecx, s.edx] ++ _) := he.framed.stack.2
    refine (holds_prefix_iff hwords ?_).mpr (hs.args.trans (List.prefix_append ..))
    exact Nat.le_trans hs.args.length_le (by simp)
  · intro d r hruns hreturned
    obtain ⟨s', hleaves, hcontext⟩ := call_resumes hstack he (heip ▸ hfunctions x)
      (hruns.mono fun c c' => Nested.undisturbed hhandlers d) hreturned
    have heax : s'.eax = r.eax := by rw [hcontext]
    refine ⟨s', hleaves, hcontext, fun errno => ?_⟩
    rw [heax]
    exact ⟨callResult_wrapperReturn .., wrapperReturn_fails_iff ..⟩
  · intro l hl haddress
    obtain ⟨s', hleaves, hcontext⟩ := ret_call_resumes he hl (heip.trans haddress)
    have heax : s'.eax = Word.of (NR x) := by rw [hcontext, ← hs.eax]
    refine ⟨s', hleaves, hcontext, fun errno => ?_⟩
    rw [heax, wrapperReturn, if_pos]
    rw [Word.toInt_of (by omega)]
    omega

/-- `write` with three arguments, for a table of functions at one address. -/
theorem wrapper_calls_write :
    let sys := linkedKernel
    let s : Cpu :=
      { interruptedProgram with
        eax := 4
        mem := ⟨fun a => if a &&& 3 = 2 then 2 else 0, []⟩ }
    ∃ e, sys.Leaves (sys.interrupt s .sys_call none) (.called (some (tableSlot sys s.eax)) e) ∧
      e.eip = 0x20000 ∧ Receives e [4, 2, 3] := by
  intro sys s
  have htable : TableIn sys (fun _ => 0x20000) s.mem := by
    intro i x hx
    have haligned : ∀ i < 87, s.mem.load32 (tableSlot sys (Word.of i)) = 0x20000 := by decide
    exact haligned i (List.getElem?_eq_some_iff.mp hx).1
  have hs : AtInt80 .sys_write [4, 2, 3] s := ⟨rfl, List.prefix_refl _⟩
  obtain ⟨e, hleaves, heip, hreceives, -⟩ := wrapper_calls sys (returns 0x20000)
    ⟨0x7000, 0x1000, by decide⟩ (fun _ => cdecl_returns _ _) (fun _ => cdecl_returns _ _)
    (by decide) hs htable (by decide) (by decide) (by decide)
  exact ⟨e, hleaves, heip, hreceives⟩

end MySystem
