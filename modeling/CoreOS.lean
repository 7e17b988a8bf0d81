import CoreOS.FileIdentity
import CoreOS.HeapRun
import CoreOS.TaskLock
import CoreOS.ReturnContext
import CoreOS.HandlerEntry
import CoreOS.HandlerFork
import CoreOS.ElfImage
import CoreOS.ProgramBreak
import CoreOS.FutexSpaces
import CoreOS.Sendfile
import CoreOS.ExitCode
import CoreOS.Sleep
import CoreOS.RobustList
import CoreOS.InitialStack
import CoreOS.Listing
import CoreOS.Cloexec
import CoreOS.MemoryMap
import CoreOS.Pci
import CoreOS.FileStatus
import CoreOS.Malloc
import CoreOS.Framebuffer
import CoreOS.Shell
