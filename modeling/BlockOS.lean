import BlockOS.Allocator.DoubleFree
import BlockOS.Allocator.FirstFit
import BlockOS.Allocator.Statistics
import BlockOS.Drivers.KeyStream
import BlockOS.Fs.FatWriteRead
import BlockOS.Fs.Positioned
import BlockOS.Fs.RoundTrip
import BlockOS.Fs.VfsBlocks
import BlockOS.Kernel.Census
import BlockOS.Kernel.Credentials
import BlockOS.Kernel.FutexCalls
import BlockOS.Kernel.IoUring
import BlockOS.Kernel.Livepatch
import BlockOS.Kernel.Owners
import BlockOS.Kernel.Rcu
import BlockOS.Kernel.Reports
import BlockOS.Kernel.Results
import BlockOS.Kernel.Roots
import BlockOS.Kernel.Streams
import BlockOS.Kernel.TaskSwitch
import BlockOS.Kernel.Typing
import BlockOS.Ldso.Init
import BlockOS.Ldso.Tls
import BlockOS.Libc.Contract
import BlockOS.Net.EphemeralPorts
import BlockOS.Net.Handles
import BlockOS.Net.Neighbours
import BlockOS.Net.OldSegments
import BlockOS.Net.RouterOptions
import BlockOS.Paging.Spaces
