import Nachos.Lib.Proof.BitmapSet
import Nachos.Lib.Proof.Hash
import Nachos.Userprog.Proof.UserIsolation
import Nachos.Userprog.Proof.Transparency
import Nachos.Filesys.Proof.Seek
import Nachos.Network.Proof.Kinds
import Nachos.Userprog.Proof.Transfer
import Nachos.Threads.Proof.Destroy
import Nachos.Threads.Proof.Children
import Nachos.Threads.Proof.Semaphores
import Nachos.Machine.Proof.Dispatch
import Nachos.Network.Proof.Office
import Nachos.Filesys.Proof.Store
import Nachos.Userprog.Proof.Translation
import Nachos.Network.Proof.Clients
import Nachos.Userprog.Proof.KernelNames
import Nachos.Coff2noff.Proof.Image
import Nachos.Filesys.Proof.SynchDisk
import Nachos.Userprog.Proof.SynchConsole
import Nachos.Machine.Proof.Arithmetic
import Nachos.Machine.Proof.Unaligned
import Nachos.Machine.Proof.Disk
import Nachos.Network.Proof.Echo
import Nachos.Threads.Proof.Lifetime
import Nachos.Threads.Proof.Rounds
