import IshGo.Elf32.Headers
import IshGo.Elf32.Random
import IshGo.Guest.Arguments
import IshGo.Guest.ExecFailure
import IshGo.Guest.FutexSpaces
import IshGo.Guest.Ignored
import IshGo.Guest.Images
import IshGo.Guest.PipeCalls
import IshGo.Guest.Reaping
import IshGo.Guest.Threads
import IshGo.I386.ByteWidth
import IshGo.I386.Compare
import IshGo.I386.KeptFlags
import IshGo.I386.Loops
import IshGo.I386.MultiWord
import IshGo.I386.Multiply
import IshGo.Kernel.Directory
import IshGo.Kernel.Dispatch
import IshGo.Kernel.Entries
import IshGo.Kernel.Extents
import IshGo.Kernel.Holes
import IshGo.Kernel.Independence
import IshGo.Kernel.Modes
import IshGo.Kernel.Numbers
import IshGo.Kernel.PipeStream
import IshGo.Pty.Lines
import IshGo.Rootfs.Import
import IshGo.Shell.Lexers
import IshGo.Vfs.Lexical
