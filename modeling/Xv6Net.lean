import Xv6Net.Machine.Basic
import Xv6Net.Ring.Basic
import Xv6Net.Bytes.Basic
import Xv6Net.Net.Header
import Xv6Net.Net.Ports
import Xv6Net.Net.Mailbox
import Xv6Net.Net.Refine
import Xv6Net.Net.RecvRace
import Xv6Net.Nic.Tx
import Xv6Net.Nic.Rx
import Xv6Net.Kernel.Kalloc
import Xv6Net.Net.Frame
import Xv6Net.Net.Stack
import Xv6Net.Kernel.Proc
import Xv6Net.Kernel.Wait
import Xv6Net.Kernel.Sleep
import Xv6Net.Kernel.Sleeplock
import Xv6Net.Kernel.Spinlock
import Xv6Net.Kernel.Lifecycle
import Xv6Net.Kernel.Vm
import Xv6Net.Kernel.Sv39
import Xv6Net.Kernel.Uvmcopy
import Xv6Net.Kernel.Freewalk
import Xv6Net.Kernel.AddrSpace
import Xv6Net.Kernel.Fork
import Xv6Net.Fs.Log
import Xv6Net.Fs.LogCrash
import Xv6Net.Fs.Layout
import Xv6Net.Fs.Inode
import Xv6Net.Fs.Balloc
import Xv6Net.Fs.Dir
import Xv6Net.Fs.Mkfs
import Xv6Net.Kernel.Pipe
import Xv6Net.Kernel.File
import Xv6Net.Kernel.FileSys
import Xv6Net.Kernel.Console
import Xv6Net.Ring.Counter
import Xv6Net.DList.Basic
import Xv6Net.Bio.Basic
import Xv6Net.Bio.Lru
import Xv6Net.Bio.Invariant
import Xv6Net.Fs.LogCache
import Xv6Net.Fs.LogPin
import Xv6Net.Virtio.Disk
import Xv6Net.Virtio.Chain
import Xv6Net.Virtio.Inv
import Xv6Net.Fs.Sysfile
import Xv6Net.Fs.Content
import Xv6Net.Fs.Path
import Xv6Net.User.Umalloc
import Xv6Net.Printf.Printint
import Xv6Net.Printf.Format
import Xv6Net.Arith.OnesComplement
import Xv6Net.Net.Cksum
import Xv6Net.Net.RoundTrip
import Xv6Net.Move.Basic
import Xv6Net.String.Memmove
import Xv6Net.Grep.Pattern
import Xv6Net.Grep.Match
import Xv6Net.Grep.Loop
