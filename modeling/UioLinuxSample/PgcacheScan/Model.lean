import UioLinuxSample.Kernel
import UioLinuxSample.Lib.CircularList
import UioLinuxSample.Lib.LockTrace

set_option autoImplicit false

/-! # `cache_scan.c`: the files with the most pages in the page cache

A write to `pgcache_scan_top_n` clears the list of the last scan, walks the inodes of all
superblocks, the open files of all processes, or both, and puts a node for every file that has
pages in the cache into `ordered_list`, largest first. Then it prints the first `top_n` nodes.

The list is one of the kernel's circular lists: nodes are addresses of a heap, and the links are
separate from what else the nodes hold. What the scans find is an argument: the superblocks with
their inodes and the processes with their files, each with the outcome of the `kzalloc` that the
scan may call there. A function returns the state it leaves, or the state in which it has
dereferenced a pointer it must not (`Except.error`).

The state records the operations on locks and the output. `added` is a history of the nodes
passed to `order_list_add`, with the inode each one is for; no function reads it.
-/

namespace UioLinuxSample.PgcacheScan

open CircularList LockTrace

/-! ## The file systems and the processes -/

/-- The fields of `struct block_device`: the partition number of `bd_part` and the name of
`bd_disk`, `none` for `NULL`. -/
structure BlockDevice where
  bdPart : Option Int
  bdDisk : Option String
  deriving DecidableEq

structure SuperBlock where
  sBdev : Option BlockDevice
  deriving DecidableEq

structure Inode where
  /-- Its address, which is that of its `i_lock`. -/
  addr : Nat
  iIno : UInt64
  iNlink : Nat
  iCount : Int32
  /-- `I_FREEING`, `I_WILL_FREE` and `I_NEW` of `i_state`. -/
  freeing : Bool
  willFree : Bool
  new : Bool
  /-- `i_mapping->nrpages`. -/
  nrpages : UInt64
  iSize : Int
  iSb : Option SuperBlock
  deriving DecidableEq

/-- An inode on the list of a superblock, and whether a `kzalloc` at its turn succeeds. -/
structure Visit where
  inode : Inode
  kzalloc : Bool
  deriving DecidableEq

/-- An open file: `f_mapping->host`, the path `d_path` gives, and whether `kzalloc` succeeds. -/
structure File where
  host : Option Inode
  path : String
  kzalloc : Bool
  deriving DecidableEq

structure Process where
  pid : Int
  comm : Comm
  /-- It is `init_task`. -/
  isInit : Bool
  /-- It is `current`. -/
  isCurrent : Bool
  /-- Its descriptor table, from descriptor 0 on. -/
  files : Option (List (Option File))
  deriving DecidableEq

/-! ## The state -/

/-- `pgcount_node_t`, without the links. -/
structure Node where
  ino : UInt64
  pagecount : UInt64
  icount : UInt32
  pid : Int
  size : Int
  devname : String
  comm : Comm
  abspath : Option String
  deriving DecidableEq

/-- What `kzalloc` gives. -/
def Node.zero : Node := ⟨0, 0, 0, 0, 0, "", Comm.empty, none⟩

/-- The addresses a link can hold. -/
inductive Ptr where
  | orderedList
  | node (n : Nat)
  | poison1
  | poison2
  deriving DecidableEq

inductive Lock where
  | orderedListLock
  | inodeSbListLock
  | iLock (inode : Nat)
  | taskLock (pid : Int)
  deriving DecidableEq

/-- The line `print_top_num` prints for a node. The format has `%3lluMb` once and `%3lluMB`
otherwise. -/
structure Line where
  devname : String
  ino : UInt64
  icount : UInt32
  nrpage : UInt64
  gb : UInt64
  mb : UInt64
  mbUnit : String
  kb : UInt64
  isz : Int
  pid : Int
  comm : Comm
  path : Option String
  deriving DecidableEq

inductive Printk where
  | text (s : String)
  | line (l : Line)
  deriving DecidableEq

structure World where
  links : Links Ptr
  /-- The nodes by their address, `none` once they are freed. -/
  heap : List (Option Node)
  ops : List (LockOp Lock)
  log : List Printk
  added : List (Inode × Node)

/-- `LIST_HEAD(ordered_list)` and `DEFINE_SPINLOCK(ordered_list_lock)`. -/
def World.init : World where
  links := ⟨fun _ => .orderedList, fun _ => .orderedList⟩
  heap := []
  ops := []
  log := []
  added := []

namespace World

def spinLock (w : World) (l : Lock) : World := { w with ops := w.ops ++ [.acquire l] }

def spinUnlock (w : World) (l : Lock) : World := { w with ops := w.ops ++ [.release l] }

def printk (w : World) (p : Printk) : World := { w with log := w.log ++ [p] }

/-- The node at an address. -/
def deref (w : World) : Ptr → Option Node
  | .node n => w.heap[n]?.join
  | _ => none

/-- `kzalloc` of a node, when it succeeds. -/
def kzalloc (w : World) : Nat × World :=
  (w.heap.length, { w with heap := w.heap ++ [some Node.zero] })

/-- A write of the fields of a node. -/
def store (w : World) (n : Nat) (node : Node) : World :=
  { w with heap := w.heap.set n (some node) }

/-- `kfree`. -/
def kfree (w : World) : Ptr → Except World World
  | .node n =>
      if (w.heap[n]?.join).isSome then .ok { w with heap := w.heap.set n none } else .error w
  | _ => .error w

/-- The history of a node that is passed to `order_list_add`. -/
def note (w : World) (inode : Inode) (node : Node) : World :=
  { w with added := w.added ++ [(inode, node)] }

end World

/-! ## The ordered list -/

/-- `list_for_each_entry_safe` over `ordered_list`. A list has no more nodes than the heap. -/
def forEachNode {σ : Type} (world : σ → World) (body : Ptr → σ → Except World (ForInStep σ))
    (s : σ) : Except World (ForInStep σ) :=
  forEachSafe (fun s => (world s).links) world .orderedList body ((world s).heap.length + 1)
    ((world s).links.next .orderedList) s

/-- The body of the loop of `order_list_add`. -/
def orderListAddBody (new : Nat) (node : Ptr) (w : World) : Except World (ForInStep World) :=
  match w.deref (.node new), w.deref node with
  | some a, some b =>
      if a.pagecount > b.pagecount then
        .ok (.done { w with links := listAdd w.links (.node new) (w.links.prev node) })
      else .ok (.yield w)
  | _, _ => .error w

/-- `order_list_add`. -/
def orderListAdd (w : World) (new : Nat) : Except World World :=
  if listEmpty w.links .orderedList then
    .ok { w with links := listAdd w.links (.node new) .orderedList }
  else
    match forEachNode id (orderListAddBody new) w with
    | .ok (.done w) => .ok w
    | .ok (.yield w) =>
        .ok { w with links := listAddTail w.links (.node new) .orderedList }
    | .error w => .error w

/-- The body of the loop of `order_list_clear`. -/
def orderListClearBody (node : Ptr) (w : World) : Except World (ForInStep World) := do
  let w ← World.kfree { w with links := listDel w.links node .poison1 .poison2 } node
  return .yield w

/-- `order_list_clear`. -/
def orderListClear (w : World) : Except World World :=
  let w := w.spinLock .orderedListLock
  match forEachNode id orderListClearBody w with
  | .ok (.yield w) | .ok (.done w) => .ok (w.spinUnlock .orderedListLock)
  | .error w => .error w

/-- `PAGE_SIZE`. -/
def pageSize : UInt64 := 4096

/-- `K`, `M` and `G`. -/
def kilo : UInt64 := 1024

def mega : UInt64 := 1024 * kilo

def giga : UInt64 := 1024 * mega

def gbOf (bytes : UInt64) : UInt64 := bytes / giga

def mbOf (bytes : UInt64) : UInt64 := (bytes - gbOf bytes * giga) / mega

def kbOf (bytes : UInt64) : UInt64 := (bytes - gbOf bytes * giga - mbOf bytes * mega) / kilo

/-- The line for a node, if one is printed. -/
def lineOf (n : Node) : Option Line :=
  let bytes := n.pagecount * pageSize
  let line := fun mbUnit =>
    ({ devname := n.devname, ino := n.ino, icount := n.icount, nrpage := n.pagecount,
       gb := gbOf bytes, mb := mbOf bytes, mbUnit := mbUnit, kb := kbOf bytes, isz := n.size,
       pid := n.pid, comm := n.comm, path := n.abspath } : Line)
  if gbOf bytes ≠ 0 then some (line "MB")
  else if mbOf bytes ≠ 0 then some (line "MB")
  else if kbOf bytes ≠ 0 then some (line "Mb")
  else none

/-- The body of the loop of `print_top_num`, with its counter. -/
def printTopNumBody (num : Int) (node : Ptr) (s : World × Int) :
    Except World (ForInStep (World × Int)) :=
  -- `count++ < num`
  if s.2 < num then
    match s.1.deref node with
    | none => .error s.1
    | some n =>
        match lineOf n with
        | some line => .ok (.yield (s.1.printk (.line line), s.2 + 1))
        | none => .ok (.yield (s.1, s.2 + 1))
  else .ok (.yield (s.1, s.2 + 1))

/-- `print_top_num`. -/
def printTopNum (w : World) (num : Int) : Except World World :=
  if listEmpty w.links .orderedList then
    -- `goto out`, past the `spin_lock`
    .ok ((w.printk (.text "ordered_list is empty !\n")).spinUnlock .orderedListLock)
  else
    let w := (w.spinLock .orderedListLock).printk (.text "\n")
    match forEachNode Prod.fst (printTopNumBody num) (w, 0) with
    | .ok (.yield s) | .ok (.done s) =>
        .ok ((s.1.printk (.text "\n")).spinUnlock .orderedListLock)
    | .error w => .error w

/-! ## The scan of a superblock -/

/-- `snprintf` into a buffer of `size` bytes. -/
def snprintf (size : Nat) (s : String) : String := String.ofList (s.toList.take (size - 1))

/-- `sizeof(pgc->devname)`. -/
def devnameSize : Nat := 64

/-- `"%s%d"` of a disk name and a partition number. -/
def partitionName (diskName : String) (partno : Int) : String :=
  snprintf devnameSize (diskName ++ toString partno)

/-- `"(null)"`. -/
def noDevice : String := snprintf devnameSize "(null)"

/-- The inode is going away or not set up yet, or has no pages. -/
def Inode.skipped (i : Inode) : Bool := (i.freeing || i.willFree || i.new) || i.nrpages == 0

/-- The fields that `scan_inodes_pagecache_one_sb` fills in. -/
def fillFromSb (sb : SuperBlock) (inode : Inode) (pgc : Node) : Node :=
  match sb.sBdev with
  | some ⟨some partno, some diskName⟩ =>
      { pgc with
        ino := inode.iIno
        devname := partitionName diskName partno
        pagecount := inode.nrpages
        icount := inode.iCount.toUInt32 }
  | _ => { pgc with devname := noDevice }

/-- The node for the inode of a turn: `pgc` if it is there, or a new one. -/
def takeNode (pgc : Option Nat) (v : Visit) (w : World) : Option (Nat × World) :=
  match pgc with
  | some n => some (n, w)
  | none => if v.kzalloc then some w.kzalloc else none

/-- The rest of a turn, with the node `n`, and the `pgc` it leaves. -/
def scanInode (sb : SuperBlock) (inode : Inode) (n : Nat) (w : World) :
    Except World (World × Option Nat) :=
  let w := w.spinLock (.iLock inode.addr)
  if inode.skipped then .ok (w.spinUnlock (.iLock inode.addr), some n)
  else
    match w.deref (.node n) with
    | none => .error w
    | some node =>
        let node := fillFromSb sb inode node
        let w := (w.store n node).spinUnlock (.iLock inode.addr)
        orderListAdd (w.note inode node) n >>= fun w => .ok (w, none)

/-- The loop of `scan_inodes_pagecache_one_sb`. `pgc` is the node that was allocated for an inode
that was skipped, and that the next one gets. -/
def scanInodes (sb : SuperBlock) : List Visit → World → Option Nat → Except World World
  | [], w, _ => .ok w
  | v :: vs, w, pgc =>
      match takeNode pgc v w with
      | none => .ok (w.printk (.text "kmalloc failed, nomem"))
      | some (n, w) => do
          let (w, pgc) ← scanInode sb v.inode n w
          scanInodes sb vs w pgc

/-- `scan_inodes_pagecache_one_sb`. -/
def scanInodesPagecacheOneSb (w : World) (sb : SuperBlock) (sInodes : List Visit) :
    Except World World := do
  let w := (w.spinLock .orderedListLock).spinLock .inodeSbListLock
  let w ← scanInodes sb sInodes w none
  return (w.spinUnlock .inodeSbListLock).spinUnlock .orderedListLock

/-- `iterate_supers(scan_inodes_pagecache_one_sb, NULL)`. -/
def iterateSupers : List (SuperBlock × List Visit) → World → Except World World
  | [], w => .ok w
  | (sb, sInodes) :: supers, w => do
      let w ← scanInodesPagecacheOneSb w sb sInodes
      iterateSupers supers w

/-! ## The scan of the open files -/

/-- The device name `scan_file_inode` writes over `old`. It does not test `bd_part`: `none` is a
`NULL` pointer that is dereferenced. -/
def fileDevname (iSb : Option SuperBlock) (old : String) : Option String :=
  match iSb with
  | none => some old
  | some sb =>
      match sb.sBdev with
      | some ⟨bdPart, some diskName⟩ => bdPart.map (partitionName diskName)
      | _ => some noDevice

/-- The fields that `scan_file_inode` fills in. -/
def fillFromFile (tsk : Process) (f : File) (inode : Inode) (devname : String) (pgc : Node) :
    Node :=
  { pgc with
    abspath := some f.path
    ino := inode.iIno
    size := inode.iSize
    devname := devname
    pagecount := inode.nrpages
    icount := inode.iCount.toUInt32
    pid := tsk.pid
    comm := tsk.comm }

/-- The inode has pages and passes the filter for files that are deleted but in use. -/
def Inode.wanted (i : Inode) (deletedButUsed : Bool) : Bool :=
  i.nrpages != 0 && (!deletedButUsed || (i.iNlink == 0 && i.iCount != 0))

/-- `scan_file_inode`. It returns 0 on every path, also when `kzalloc` fails. -/
def scanFileInode (deletedButUsed : Bool) (tsk : Process) (f : Option File) (w : World) :
    Except World (Int × World) :=
  match f with
  | none => .ok (0, w)
  | some f =>
      match f.host with
      | none => .ok (0, w)
      | some inode =>
          if !inode.wanted deletedButUsed then .ok (0, w)
          else if !f.kzalloc then .ok (0, w)
          else
            let (n, w) := w.kzalloc
            match fileDevname inode.iSb Node.zero.devname with
            | none => .error w
            | some devname =>
                let node := fillFromFile tsk f inode devname Node.zero
                orderListAdd ((w.store n node).note inode node) n >>= fun w => .ok (0, w)

/-- The loop of `iterate_fd`, which passes over closed descriptors and stops at a result that is
not 0. -/
def iterateFd (deletedButUsed : Bool) (tsk : Process) :
    List (Option File) → World → Except World World
  | [], w => .ok w
  | none :: fds, w => iterateFd deletedButUsed tsk fds w
  | some f :: fds, w => do
      let (res, w) ← scanFileInode deletedButUsed tsk (some f) w
      if res ≠ 0 then .ok w else iterateFd deletedButUsed tsk fds w

/-- `scan_process_inodes_pagecache`. The scan of a table starts at descriptor 1. -/
def scanProcessInodesPagecache (deletedButUsed : Bool) :
    List Process → World → Except World World
  | [], w => .ok w
  | p :: ps, w =>
      if p.isInit || p.isCurrent then scanProcessInodesPagecache deletedButUsed ps w
      else
        let w := w.spinLock (.taskLock p.pid)
        match p.files with
        | none => scanProcessInodesPagecache deletedButUsed ps (w.spinUnlock (.taskLock p.pid))
        | some fds => do
            let w ← iterateFd deletedButUsed p (fds.drop 1) (w.spinLock .orderedListLock)
            scanProcessInodesPagecache deletedButUsed ps
              ((w.spinUnlock .orderedListLock).spinUnlock (.taskLock p.pid))

/-! ## The sysctl handler -/

/-- An access to `pgcache_scan_top_n`: what `proc_dointvec_minmax` returns, the settings after
it, and what there is to scan. -/
structure Request where
  ret : Int
  write : Bool
  topN : Int
  mode : Int
  deletedButUsed : Bool
  supers : List (SuperBlock × List Visit)
  processes : List Process

/-- The scan of the selected mode. -/
def Request.scan (r : Request) (w : World) : Except World World :=
  if r.mode = 0 then scanProcessInodesPagecache r.deletedButUsed r.processes w
  else if r.mode = 1 then iterateSupers r.supers w
  else iterateSupers r.supers w >>= scanProcessInodesPagecache r.deletedButUsed r.processes

/-- The branch of the handler for a known mode. -/
def Request.report (r : Request) (w : World) : Except World World := do
  let w ← orderListClear w
  let w ← r.scan w
  printTopNum w r.topN

/-- `scan_caches_sysctl_handler`. -/
def scanCachesSysctlHandler (r : Request) (w : World) : Except World (Int × World) :=
  if r.ret ≠ 0 then .ok (r.ret, w)
  else if r.write then
    if r.mode = 0 ∨ r.mode = 1 ∨ r.mode = 2 then r.report w >>= fun w => .ok (0, w)
    else .ok (0, w)
  else .ok (0, w)

end UioLinuxSample.PgcacheScan
